import Hgfrr.Overlay.SpanningTree

/-!
# Another fan-out at the start

The starter of a ring may use any base, its relays always use base two. A ring of two
nodes does not tell the bases apart. In a larger ring the node two seats on is left
out: two is no power of a base above two, and no relay's child.
-/

variable {α : Type*} [DecidableEq α]

namespace Overlay

variable {ov : Overlay α} {level : ℕ} {peers : List α}

/-- A start in a ring of at most two nodes is the same for all bases. -/
theorem Agreed.sends_of_short (hagreed : ov.Agreed level peers) (hshort : peers.length ≤ 2)
    {base : ℕ} (hbase : 2 ≤ base) {x : α} (hx : x ∈ peers) :
    ov.sends base ⟨x, level, 0⟩ = ov.sends 2 ⟨x, level, 0⟩ := by
  obtain ⟨contacts, hring⟩ := hagreed.holds x hx
  have hzero : ∀ {b i : ℕ}, 2 ≤ b → i ∈ PowerTree.exponents b 0 peers.length → i = 0 := by
    intro b i hb hi
    obtain ⟨_, hsize⟩ := (PowerTree.mem_exponents hb).mp hi
    by_contra hne
    have hle : b ≤ b ^ i := Nat.le_self_pow hne b
    omega
  have hexponents : PowerTree.exponents base 0 peers.length =
      PowerTree.exponents 2 0 peers.length := by
    refine List.filter_congr fun i hi => ?_
    have hiff : i ∈ PowerTree.exponents base 0 peers.length ↔
        i ∈ PowerTree.exponents 2 0 peers.length := by
      constructor <;> intro h
      · obtain rfl := hzero hbase h
        rw [PowerTree.mem_exponents hbase] at h
        exact (PowerTree.mem_exponents le_rfl).mpr (by simpa using h)
      · obtain rfl := hzero le_rfl h
        rw [PowerTree.mem_exponents le_rfl] at h
        exact (PowerTree.mem_exponents hbase).mpr (by simpa using h)
    rw [PowerTree.mem_exponents hbase, PowerTree.mem_exponents le_rfl] at hiff
    exact decide_eq_decide.mpr hiff
  simp only [sends, hring, hexponents]
  refine List.filterMap_congr fun i hi => ?_
  obtain rfl := hzero le_rfl hi
  simp only [pow_zero]

/-- Messages inside the ring that go past the second seat after `s`. -/
def SkipsTwo (level : ℕ) (peers : List α) (s : ℕ) (hop : Hop α) : Prop :=
  ∃ y l order descend, hop = .ring y l order descend ∧ 0 < order ∧
    (l < level ∨ l = level ∧ order < peers.length ∧ order ≠ 2 ∧ seat peers (s + order) = some y)

theorem skipsTwo_of_lower {call : Call α} {s : ℕ} {hop : Hop α} (hlevel : call.level < level)
    (h : hop ∈ ov.sends 2 call) : SkipsTwo level peers s hop := by
  have hsent := sent_of_mem_sends le_rfl h
  obtain ⟨view, i, y, _, _, _, _, rfl⟩ := (Overlay.mem_sends ov le_rfl).mp h
  exact ⟨y, call.level, _, _, rfl, hsent.1, Or.inl hlevel⟩

/-- A power of a base above two is not two. -/
theorem Agreed.skipsTwo_of_start (hagreed : ov.Agreed level peers) {base : ℕ} (hbase : 3 ≤ base)
    {s : ℕ} {x : α} (hx : seat peers s = some x) {hop : Hop α}
    (h : hop ∈ ov.sends base ⟨x, level, 0⟩) : SkipsTwo level peers s hop := by
  obtain ⟨i, y, horder, hsize, hy, rfl⟩ := (hagreed.mem_sends (by omega) hx).mp h
  have hne : 0 + base ^ i ≠ 2 := by
    cases i with
    | zero => simp
    | succ i =>
        have hle : base ≤ base ^ (i + 1) := Nat.le_self_pow (by omega) base
        omega
  exact ⟨y, level, _, _, rfl, by omega, Or.inr ⟨rfl, hsize, hne, by rwa [Nat.zero_add]⟩⟩

/-- A relay of positive order sends on to orders above two. -/
theorem Agreed.skipsTwo_of_react (hagreed : ov.Agreed level peers) {s : ℕ} {hop : Hop α}
    {outs : List (Hop α)} (hskips : SkipsTwo level peers s hop) (h : ov.React hop outs) :
    ∀ o ∈ outs, SkipsTwo level peers s o := by
  intro o ho
  obtain ⟨y, l, order, descend, rfl, hpos, hplace⟩ := hskips
  rw [outs_of_react_ring h] at ho
  obtain ⟨call, hcall, hsent⟩ := List.mem_flatMap.mp ho
  rcases mem_calls_ring.mp hcall with rfl | ⟨_, _, hbelow, _⟩
  · rcases hplace with hlower | ⟨rfl, _, _, hseat⟩
    · exact skipsTwo_of_lower hlower hsent
    · obtain ⟨i, z, horder, hsize, hz, rfl⟩ := (hagreed.mem_sends le_rfl hseat).mp hsent
      have hpow := Nat.two_pow_pos i
      refine ⟨z, l, _, _, rfl, by omega, Or.inr ⟨rfl, hsize, ?_, by rwa [← add_assoc]⟩⟩
      -- an order of one has the children three, five, nine, ..
      intro htwo
      obtain rfl : order = 1 := by omega
      omega
  · exact skipsTwo_of_lower (by omega) hsent

omit [DecidableEq α] in
theorem Agreed.not_to_of_skipsTwo (hagreed : ov.Agreed level peers) (hsize : 2 < peers.length)
    {s : ℕ} {y : α} (hy : seat peers (s + 2) = some y) {hop : Hop α}
    (hskips : SkipsTwo level peers s hop) : ¬ hop.To y level := by
  obtain ⟨z, l, order, descend, rfl, _, hplace⟩ := hskips
  rintro ⟨rfl, rfl⟩
  rcases hplace with hlower | ⟨_, horder, hne, hseat⟩
  · exact lt_irrefl _ hlower
  · have hmod : order ≡ 2 [MOD peers.length] :=
      Nat.ModEq.add_left_cancel' s (seat_inj hagreed.nodup hseat hy)
    exact hne (by rwa [Nat.ModEq, Nat.mod_eq_of_lt horder, Nat.mod_eq_of_lt hsize] at hmod)

omit [DecidableEq α] in
/-- The node two seats on is another one. -/
theorem Agreed.seat_two_ne (hagreed : ov.Agreed level peers) (hsize : 2 < peers.length) {s : ℕ}
    {x y : α} (hx : seat peers s = some x) (hy : seat peers (s + 2) = some y) : y ≠ x := by
  rintro rfl
  have hmod : 2 ≡ 0 [MOD peers.length] :=
    Nat.ModEq.add_left_cancel' s (seat_inj hagreed.nodup hy hx)
  rw [Nat.ModEq, Nat.mod_eq_of_lt hsize, Nat.zero_mod] at hmod
  omega

/-- Handling a message of the ring puts only messages of larger orders in flight
there. -/
theorem order_lt_of_react {x y : α} {level l order order' : ℕ} {descend descend' : Bool}
    {outs : List (Hop α)} (h : ov.React (.ring x level order descend) outs)
    (ho : .ring y l order' descend' ∈ outs) (hlevel : l = level) : order < order' := by
  rw [outs_of_react_ring h] at ho
  obtain ⟨call, hcall, hsent⟩ := List.mem_flatMap.mp ho
  obtain ⟨view, i, z, _, _, _, _, heq⟩ := (Overlay.mem_sends ov le_rfl).mp hsent
  have hpow := Nat.two_pow_pos i
  injection heq with _ hl horder _
  rcases mem_calls_ring.mp hcall with rfl | ⟨_, _, hbelow, _⟩
  · simp only at horder
    omega
  · omega

end Overlay
