import Hgfrr.Foundation.Cascade
import Hgfrr.Foundation.Counting
import Hgfrr.Foundation.PowerTree

/-!
# Hierarchical ring broadcast

An overlay gives every node its view of the rings it belongs to, one for each
level. A broadcast climbs from ring to ring over contact nodes and is then
relayed inside rings along the binary tree of powers. Representatives that
are reached inside a ring also start all their rings below it.

The views are arbitrary here: different nodes may disagree about a ring.
-/

variable {α : Type*}

/-- What a node knows about one of its rings: the peers in ring order, and the
contact nodes through which the ring above is reached. -/
structure RingView (α : Type*) where
  peers : List α
  contacts : List α

/-- Every node's view of its ring at each level, and which nodes relay
downwards for the regions below them. -/
structure Overlay (α : Type*) where
  ring : α → ℕ → Option (RingView α)
  represents : α → Bool

/-- A message of the broadcast: one that asks its receiver to act for its ring
at `level` on the way up, or one that travels inside a ring and carries the
receiver's order there. -/
inductive Hop (α : Type*)
  | climb (receiver : α) (level : ℕ)
  | ring (receiver : α) (level order : ℕ) (descend : Bool)
deriving DecidableEq

namespace Hop

/-- The node that handles the message. -/
def receiver : Hop α → α
  | climb receiver _ => receiver
  | ring receiver _ _ _ => receiver

@[simp] theorem receiver_climb (x : α) (level : ℕ) : (climb x level).receiver = x := rfl

@[simp] theorem receiver_ring (x : α) (level order : ℕ) (descend : Bool) :
    (ring x level order descend).receiver = x := rfl

/-- Messages inside a ring of one level. -/
def InRing (level : ℕ) : Hop α → Prop
  | climb _ _ => False
  | ring _ l _ _ => l = level

instance (level : ℕ) : DecidablePred (InRing (α := α) level)
  | climb _ _ => inferInstanceAs (Decidable False)
  | ring _ l _ _ => inferInstanceAs (Decidable (l = level))

@[simp] theorem inRing_climb (level : ℕ) (x : α) (l : ℕ) :
    ¬ InRing level (climb x l) := id

@[simp] theorem inRing_ring {level : ℕ} {x : α} {l order : ℕ} {descend : Bool} :
    InRing level (ring x l order descend) ↔ l = level := Iff.rfl

end Hop

/-- The levels below `level`, highest first. -/
def levelsBelow (level : ℕ) : List ℕ := (List.range level).reverse

@[simp] theorem mem_levelsBelow {level l : ℕ} : l ∈ levelsBelow level ↔ l < level := by
  simp [levelsBelow]

theorem nodup_levelsBelow (level : ℕ) : (levelsBelow level).Nodup :=
  List.nodup_reverse.mpr List.nodup_range

theorem levelsBelow_succ (level : ℕ) : levelsBelow (level + 1) = level :: levelsBelow level := by
  simp [levelsBelow, List.range_succ]

/-- The peer at a seat of a ring, counted around it. -/
def seat (peers : List α) (index : ℕ) : Option α := peers[index % peers.length]?

theorem mem_of_seat {peers : List α} {index : ℕ} {x : α} (h : seat peers index = some x) :
    x ∈ peers := List.mem_of_getElem? h

theorem exists_seat {peers : List α} (h : 0 < peers.length) (index : ℕ) :
    ∃ x, seat peers index = some x :=
  ⟨_, List.getElem?_eq_getElem (Nat.mod_lt index h)⟩

theorem seat_of_mem {peers : List α} {x : α} (h : x ∈ peers) :
    ∃ index, index < peers.length ∧ seat peers index = some x := by
  obtain ⟨index, hlt, rfl⟩ := List.getElem_of_mem h
  exact ⟨index, hlt, by simp [seat, Nat.mod_eq_of_lt hlt]⟩

/-- Without repetitions a peer has one seat. -/
theorem seat_inj {peers : List α} (hnodup : peers.Nodup) {i j : ℕ} {x : α}
    (hi : seat peers i = some x) (hj : seat peers j = some x) :
    i % peers.length = j % peers.length := by
  have hlt : i % peers.length < peers.length := (List.getElem?_eq_some_iff.mp hi).1
  exact (List.getElem?_inj hlt hnodup).mp (hi.trans hj.symm)

/-- Going `n - order` seats on takes back `order` seats. -/
theorem seats_cancel {n s m order : ℕ} (h : (s + (m + (n - order))) % n = s % n) (hm : m < n)
    (hpos : 0 < order) (hle : order < n) : order = m := by
  have hdvd : n ∣ m + (n - order) := by
    have := (Nat.modEq_iff_dvd' (Nat.le_add_right s (m + (n - order)))).mp h.symm
    rwa [Nat.add_sub_cancel_left] at this
  obtain ⟨k, hk⟩ := hdvd
  have hlow : n * 0 < n * k := by omega
  have hhigh : n * k < n * 2 := by omega
  obtain rfl : k = 1 := by
    have := Nat.lt_of_mul_lt_mul_left hlow
    have := Nat.lt_of_mul_lt_mul_left hhigh
    omega
  omega

/-- Going round a ring, every peer lies some number of seats after any other. -/
theorem exists_seat_add {peers : List α} (start : ℕ) {y : α} (h : y ∈ peers) :
    ∃ m, m < peers.length ∧ seat peers (start + m) = some y := by
  obtain ⟨index, hlt, hseat⟩ := seat_of_mem h
  have hpos : 0 < peers.length := by omega
  have hstart := Nat.mod_lt start hpos
  refine ⟨(index + (peers.length - start % peers.length)) % peers.length,
    Nat.mod_lt _ hpos, ?_⟩
  rw [← hseat]
  unfold seat
  congr 1
  rw [Nat.add_mod_mod, Nat.add_mod, ← Nat.add_mod, ← Nat.mod_add_mod,
    show start % peers.length + (index + (peers.length - start % peers.length)) =
      index + peers.length by omega, Nat.add_mod_right]

namespace Overlay

section Targets

variable [DecidableEq α]

/-- A node's place in a list of peers, `-1` when it is missing. -/
def place (peers : List α) (x : α) : ℤ := if x ∈ peers then (peers.idxOf x : ℤ) else -1

theorem neg_one_le_place (peers : List α) (x : α) : -1 ≤ place peers x := by
  unfold place
  split <;> omega

theorem place_lt (peers : List α) (x : α) : place peers x < peers.length := by
  unfold place
  split
  next hmem => exact_mod_cast List.idxOf_lt_length_of_mem hmem
  next => omega

/-- The peer `step` places further round the ring, as `x` sees it. -/
def target (peers : List α) (x : α) (step : ℕ) : Option α :=
  peers[((place peers x + step) % peers.length).toNat]?

/-- Peers are always found: the place wraps around the ring. -/
theorem exists_target {peers : List α} (h : 0 < peers.length) (x : α) (step : ℕ) :
    ∃ y, target peers x step = some y := by
  have hpos : (0 : ℤ) < peers.length := by exact_mod_cast h
  have hnonneg := Int.emod_nonneg (place peers x + step) hpos.ne'
  have hlt := Int.emod_lt_of_pos (place peers x + step) hpos
  exact ⟨_, List.getElem?_eq_getElem (by omega)⟩

theorem target_of_seat {peers : List α} (hnodup : peers.Nodup) {x : α} {index : ℕ}
    (hseat : seat peers index = some x) (step : ℕ) :
    target peers x step = seat peers (index + step) := by
  have hmem : x ∈ peers := mem_of_seat hseat
  have hlt : peers.idxOf x < peers.length := List.idxOf_lt_length_of_mem hmem
  have hself : seat peers (peers.idxOf x) = some x := by
    rw [seat, Nat.mod_eq_of_lt hlt, List.getElem?_eq_getElem hlt, List.getElem_idxOf hlt]
  have hidx : peers.idxOf x = index % peers.length := by
    rw [← seat_inj hnodup hself hseat, Nat.mod_eq_of_lt hlt]
  have hplace : place peers x + step = ((index % peers.length + step : ℕ) : ℤ) := by
    rw [place, if_pos hmem, hidx]
    push_cast
    rfl
  rw [target, hplace, ← Int.natCast_mod, Int.toNat_natCast, Nat.mod_add_mod, seat]

end Targets

/-- One pass over a ring: `node`, whose own order is `order`, sends on to its
children. With order zero the node starts the ring. -/
structure Call (α : Type*) where
  node : α
  level : ℕ
  order : ℕ
deriving DecidableEq

variable (ov : Overlay α)

/-- The contact nodes of a node's ring at `level`, none when it has no such
ring. -/
def contactsAt (x : α) (level : ℕ) : List α :=
  match ov.ring x level with
  | none => []
  | some view => view.contacts

/-- A climb ends at a node that sees no contact nodes above it. -/
def AtTop (x : α) (level : ℕ) : Prop :=
  (ov.ring x level).isSome ∧ ov.contactsAt x (level + 1) = []

instance (x : α) (level : ℕ) : Decidable (ov.AtTop x level) :=
  inferInstanceAs (Decidable ((ov.ring x level).isSome ∧ ov.contactsAt x (level + 1) = []))

/-- A node starts its rings at several levels. -/
def startAll (x : α) (levels : List ℕ) : List (Call α) :=
  levels.map fun level => ⟨x, level, 0⟩

/-- The passes over rings that the receiver of a message makes. -/
def calls : Hop α → List (Call α)
  | .climb x level => if ov.AtTop x level then startAll x (levelsBelow (level + 1)) else []
  | .ring x level order descend =>
      ⟨x, level, order⟩ :: if descend then startAll x (levelsBelow level) else []

section Sends

variable [DecidableEq α]

/-- What a node sends in one pass over its ring. -/
def sends (base : ℕ) (call : Call α) : List (Hop α) :=
  match ov.ring call.node call.level with
  | none => []
  | some view =>
      (PowerTree.exponents base call.order view.peers.length).filterMap fun i =>
        (target view.peers call.node (base ^ i)).map fun y =>
          .ring y call.level (call.order + base ^ i) (call.level != 0 && ov.represents y)

theorem mem_sends {base : ℕ} (hbase : 2 ≤ base) {call : Call α} {hop : Hop α} :
    hop ∈ ov.sends base call ↔
      ∃ view i y, ov.ring call.node call.level = some view ∧ call.order < base ^ i ∧
        call.order + base ^ i < view.peers.length ∧
        target view.peers call.node (base ^ i) = some y ∧
        hop = .ring y call.level (call.order + base ^ i)
          (call.level != 0 && ov.represents y) := by
  unfold sends
  cases hring : ov.ring call.node call.level with
  | none => simp
  | some view =>
      simp only [List.mem_filterMap, PowerTree.mem_exponents hbase, Option.map_eq_some_iff,
        Option.some.injEq]
      constructor
      · rintro ⟨i, ⟨horder, hsize⟩, y, htarget, rfl⟩
        exact ⟨view, i, y, rfl, horder, hsize, htarget, rfl⟩
      · rintro ⟨_, i, y, rfl, horder, hsize, htarget, rfl⟩
        exact ⟨i, ⟨horder, hsize⟩, y, htarget, rfl⟩

/-- Handling a message. On the way up one contact node of the next ring is
chosen. Otherwise the receiver makes its passes over rings. -/
inductive React : Hop α → List (Hop α) → Prop
  | up {x : α} {level : ℕ} {c : α} (hring : (ov.ring x level).isSome)
      (hc : c ∈ ov.contactsAt x (level + 1)) :
      React (.climb x level) [.climb c (level + 1)]
  | relay {hop : Hop α}
      (hstay : ∀ x level, hop = .climb x level → (ov.ring x level).isSome →
        ov.contactsAt x (level + 1) = []) :
      React hop ((ov.calls hop).flatMap (ov.sends 2))

end Sends

/-- The passes over rings made so far in a run. -/
def callsOf (cfg : Cascade.Config (Hop α)) : List (Call α) := cfg.handled.flatMap ov.calls

variable {ov}

theorem mem_startAll {x : α} {levels : List ℕ} {call : Call α} :
    call ∈ startAll x levels ↔ call.node = x ∧ call.level ∈ levels ∧ call.order = 0 := by
  rcases call with ⟨y, l, o⟩
  simp only [startAll, List.mem_map, Call.mk.injEq]
  constructor
  · rintro ⟨_, hl, rfl, rfl, rfl⟩
    exact ⟨rfl, hl, rfl⟩
  · rintro ⟨rfl, hl, rfl⟩
    exact ⟨l, hl, rfl, rfl, rfl⟩

theorem mem_calls_climb {x : α} {level : ℕ} {call : Call α} :
    call ∈ ov.calls (.climb x level) ↔
      ov.AtTop x level ∧ call.node = x ∧ call.level ≤ level ∧ call.order = 0 := by
  simp only [calls]
  split
  next htop => simp [mem_startAll, htop]
  next htop => simp [htop]

theorem mem_calls_ring {x : α} {level order : ℕ} {descend : Bool} {call : Call α} :
    call ∈ ov.calls (.ring x level order descend) ↔
      call = ⟨x, level, order⟩ ∨
        descend = true ∧ call.node = x ∧ call.level < level ∧ call.order = 0 := by
  cases descend <;> simp [calls, mem_startAll]

theorem node_of_mem_calls {hop : Hop α} {call : Call α} (h : call ∈ ov.calls hop) :
    call.node = hop.receiver := by
  cases hop with
  | climb x level => exact (mem_calls_climb.mp h).2.1
  | ring x level order descend =>
      rcases mem_calls_ring.mp h with rfl | ⟨_, hnode, _⟩
      · rfl
      · exact hnode

theorem mem_callsOf {cfg : Cascade.Config (Hop α)} {call : Call α} :
    call ∈ ov.callsOf cfg ↔ ∃ hop ∈ cfg.handled, call ∈ ov.calls hop := List.mem_flatMap

/-! ## Messages inside rings -/

/-- What every sender makes sure of: orders inside rings are positive, and
exactly the representatives are asked to relay downwards. -/
def Sent (ov : Overlay α) : Hop α → Prop
  | .climb _ _ => True
  | .ring x level order descend => 0 < order ∧ descend = (level != 0 && ov.represents x)

/-- A ring that a node starts comes with all its rings below. -/
theorem start_below {hop : Hop α} (hsent : ov.Sent hop) {x : α} {level l : ℕ}
    (h : ⟨x, level, 0⟩ ∈ ov.calls hop) (hl : l < level) : ⟨x, l, 0⟩ ∈ ov.calls hop := by
  cases hop with
  | climb y k =>
      obtain ⟨htop, hx, hlevel, _⟩ := mem_calls_climb.mp h
      simp only at hlevel
      exact mem_calls_climb.mpr ⟨htop, hx, by simp only; omega, rfl⟩
  | ring y k order descend =>
      rcases mem_calls_ring.mp h with heq | ⟨hdescend, hx, hlevel, _⟩
      · have horder : 0 < order := hsent.1
        have hzero : (0 : ℕ) = order := congrArg Call.order heq
        omega
      · simp only at hlevel
        exact mem_calls_ring.mpr (Or.inr ⟨hdescend, hx, by simp only; omega, rfl⟩)

section Sends

variable [DecidableEq α]

theorem outs_of_react_ring {x : α} {level order : ℕ} {descend : Bool} {outs : List (Hop α)}
    (h : ov.React (.ring x level order descend) outs) :
    outs = (ov.calls (.ring x level order descend)).flatMap (ov.sends 2) := by
  cases h
  rfl

theorem sent_of_mem_sends {base : ℕ} (hbase : 2 ≤ base) {call : Call α} {hop : Hop α}
    (h : hop ∈ ov.sends base call) : ov.Sent hop := by
  obtain ⟨view, i, y, _, _, _, _, rfl⟩ := (ov.mem_sends hbase).mp h
  exact ⟨by have := Nat.pow_pos (n := i) (show 0 < base by omega); omega, rfl⟩

end Sends

end Overlay
