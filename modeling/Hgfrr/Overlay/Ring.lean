import Hgfrr.Overlay.Basic

/-!
# Broadcast inside a ring on which all members agree

When the members of a ring hold the same list of peers, the messages that one
start causes follow the tree of powers around the ring: the member `m` seats
after the starter receives order `m`, from the member whose order is `m`
without its leading bit. Counting calls and messages therefore relates what a
member has handled to the number of times the ring was started.
-/

variable {α : Type*}

namespace Hop

/-- A message inside a ring, for a given receiver, level and order. -/
def For (x : α) (level order : ℕ) : Hop α → Prop
  | climb _ _ => False
  | ring y l o _ => y = x ∧ l = level ∧ o = order

instance [DecidableEq α] (x : α) (level order : ℕ) : DecidablePred (For x level order)
  | climb _ _ => inferInstanceAs (Decidable False)
  | ring y l o _ => inferInstanceAs (Decidable (y = x ∧ l = level ∧ o = order))

@[simp] theorem for_climb (x y : α) (level l order : ℕ) : ¬ For x level order (climb y l) := id

@[simp] theorem for_ring {x y : α} {level l order o : ℕ} {descend : Bool} :
    For x level order (ring y l o descend) ↔ y = x ∧ l = level ∧ o = order := Iff.rfl

/-- Messages inside a ring of one level that a given node receives. -/
def To (x : α) (level : ℕ) (hop : Hop α) : Prop := hop.receiver = x ∧ hop.InRing level

instance [DecidableEq α] (x : α) (level : ℕ) : DecidablePred (To x level) :=
  fun hop => inferInstanceAs (Decidable (hop.receiver = x ∧ hop.InRing level))

theorem For.to {x : α} {level order : ℕ} {hop : Hop α} (h : For x level order hop) :
    To x level hop := by
  cases hop with
  | climb => exact h.elim
  | ring y l o descend => exact ⟨h.1, h.2.1⟩

theorem To.exists_for {x : α} {level : ℕ} {hop : Hop α} (h : To x level hop) :
    ∃ order, For x level order hop := by
  cases hop with
  | climb => exact h.2.elim
  | ring y l o descend => exact ⟨o, h.1, h.2, rfl⟩

theorem For.exists_eq {x : α} {level order : ℕ} {hop : Hop α} (h : For x level order hop) :
    ∃ descend, hop = ring x level order descend := by
  cases hop with
  | climb => exact h.elim
  | ring y l o descend =>
      obtain ⟨rfl, rfl, rfl⟩ := h
      exact ⟨descend, rfl⟩

end Hop

namespace Overlay

variable {ov : Overlay α}

/-- All members of a ring hold it. -/
structure Agreed (ov : Overlay α) (level : ℕ) (peers : List α) : Prop where
  nodup : peers.Nodup
  holds : ∀ x ∈ peers, ∃ contacts, ov.ring x level = some ⟨peers, contacts⟩

/-- A call that concerns the ring is made by one of its members. -/
def Confined (ov : Overlay α) (level : ℕ) (peers : List α) (call : Call α) : Prop :=
  call.level = level → call.node ∈ peers ∨
    ∀ view, ov.ring call.node level = some view → ∀ y ∈ view.peers, y ∉ peers

variable [DecidableEq α] {level : ℕ} {peers : List α}

/-- The children of a member, in the tree around the ring. -/
theorem Agreed.mem_sends (hagreed : ov.Agreed level peers) {base : ℕ} (hbase : 2 ≤ base)
    {s order : ℕ} {x : α} (hx : seat peers s = some x) {hop : Hop α} :
    hop ∈ ov.sends base ⟨x, level, order⟩ ↔
      ∃ i y, order < base ^ i ∧ order + base ^ i < peers.length ∧
        seat peers (s + base ^ i) = some y ∧
        hop = .ring y level (order + base ^ i) (level != 0 && ov.represents y) := by
  obtain ⟨contacts, hring⟩ := hagreed.holds x (mem_of_seat hx)
  rw [Overlay.mem_sends ov hbase]
  simp only [hring, Option.some.injEq]
  constructor
  · rintro ⟨_, i, y, rfl, horder, hsize, htarget, rfl⟩
    rw [target_of_seat hagreed.nodup hx] at htarget
    exact ⟨i, y, horder, hsize, htarget, rfl⟩
  · rintro ⟨i, y, horder, hsize, hseat, rfl⟩
    rw [← target_of_seat hagreed.nodup hx] at hseat
    exact ⟨_, i, y, rfl, horder, hsize, hseat, rfl⟩

/-- A member reaches each child with one message. -/
theorem Agreed.countP_sends_parent (hagreed : ov.Agreed level peers) {s order i : ℕ} {x y : α}
    (hx : seat peers s = some x) (hy : seat peers (s + 2 ^ i) = some y)
    (horder : order < 2 ^ i) (hsize : order + 2 ^ i < peers.length) :
    (ov.sends 2 ⟨x, level, order⟩).countP (Hop.For y level (order + 2 ^ i)) = 1 := by
  obtain ⟨contacts, hring⟩ := hagreed.holds x (mem_of_seat hx)
  have htarget : target peers x (2 ^ i) = some y := by
    rw [target_of_seat hagreed.nodup hx, hy]
  have hexponent : i ∈ PowerTree.exponents 2 order peers.length :=
    (PowerTree.mem_exponents le_rfl).mpr ⟨horder, hsize⟩
  have hcount : (PowerTree.exponents 2 order peers.length).countP (· == i) = 1 :=
    List.count_eq_one_of_mem (PowerTree.nodup_exponents 2 order peers.length) hexponent
  simp only [sends, hring, List.countP_filterMap]
  rw [← hcount]
  refine List.countP_congr fun j hj => ?_
  obtain ⟨z, hz⟩ := exists_target (List.length_pos_of_mem (mem_of_seat hx)) x (2 ^ j)
  simp only [hz, Option.map_some, beq_iff_eq]
  change decide (Hop.For y level (order + 2 ^ i) (Hop.ring z level _ _)) = true ↔ _
  rw [decide_eq_true_eq, Hop.for_ring]
  constructor
  · rintro ⟨_, _, hsum⟩
    exact PowerTree.child_injective le_rfl hsum
  · rintro rfl
    exact ⟨Option.some.inj (hz.symm.trans htarget), by simp⟩

/-- No other call reaches that child with that order. -/
theorem Agreed.countP_sends_other (hagreed : ov.Agreed level peers) {s order i : ℕ} {x y : α}
    (hx : seat peers s = some x) (hy : seat peers (s + 2 ^ i) = some y)
    (horder : order < 2 ^ i) {call : Call α} (hconfined : ov.Confined level peers call)
    (hne : call ≠ ⟨x, level, order⟩) :
    (ov.sends 2 call).countP (Hop.For y level (order + 2 ^ i)) = 0 := by
  rw [List.countP_eq_zero]
  intro hop hmem hfor
  rcases call with ⟨z, l, o⟩
  obtain ⟨view, j, y', hring, ho, _, htarget, rfl⟩ := (Overlay.mem_sends ov le_rfl).mp hmem
  obtain ⟨rfl, rfl, hsum⟩ := Hop.for_ring.mp (of_decide_eq_true hfor)
  obtain ⟨rfl, rfl⟩ := PowerTree.parent_unique ho horder hsum
  have hpeers : y' ∈ peers := mem_of_seat hy
  rcases hconfined rfl with hz | hout
  · obtain ⟨contacts, hring'⟩ := hagreed.holds z hz
    obtain ⟨t, _, ht⟩ := seat_of_mem hz
    obtain rfl : view = ⟨peers, contacts⟩ := Option.some.inj (hring.symm.trans hring')
    rw [target_of_seat hagreed.nodup ht] at htarget
    have hmod := seat_inj hagreed.nodup htarget hy
    have hstart : t % peers.length = s % peers.length := Nat.ModEq.add_right_cancel' _ hmod
    have hzx : some z = some x := by
      rw [← ht, ← hx, seat, seat, hstart]
    exact hne (by rw [Option.some.inj hzx])
  · exact hout view hring y' (List.mem_of_getElem? htarget) hpeers

/-- The messages with which calls reach a child are counted by the calls that
its parent made. -/
theorem Agreed.countP_flatMap_sends (hagreed : ov.Agreed level peers) {s order i : ℕ} {x y : α}
    (hx : seat peers s = some x) (hy : seat peers (s + 2 ^ i) = some y)
    (horder : order < 2 ^ i) (hsize : order + 2 ^ i < peers.length) (calls : List (Call α))
    (hconfined : ∀ call ∈ calls, ov.Confined level peers call) :
    (calls.flatMap (ov.sends 2)).countP (Hop.For y level (order + 2 ^ i)) =
      calls.count ⟨x, level, order⟩ := by
  induction calls with
  | nil => rfl
  | cons call calls ih =>
      rw [List.flatMap_cons, List.countP_append, List.count_cons,
        ih fun c hc => hconfined c (List.mem_cons_of_mem _ hc), add_comm]
      congr 1
      split
      next heq =>
        rw [beq_iff_eq.mp heq]
        exact hagreed.countP_sends_parent hx hy horder hsize
      next hne =>
        exact hagreed.countP_sends_other hx hy horder (hconfined call (by simp))
          fun heq => hne (beq_iff_eq.mpr heq)

/-! ## Counting over a run -/

/-- The messages that a reaction sends inside rings are those of its calls. -/
theorem countP_of_react {hop : Hop α} {outs : List (Hop α)} (h : ov.React hop outs) (y : α)
    (order : ℕ) :
    outs.countP (Hop.For y level order) =
      ((ov.calls hop).flatMap (ov.sends 2)).countP (Hop.For y level order) := by
  cases h with
  | @up x l c hring hc =>
      have htop : ¬ ov.AtTop x l := fun htop => by simp [htop.2] at hc
      simp [calls, htop]
  | relay => rfl

theorem count_calls {hop : Hop α} {y : α} {order : ℕ} (horder : 0 < order) :
    (ov.calls hop).count ⟨y, level, order⟩ = if Hop.For y level order hop then 1 else 0 := by
  have hstart : ∀ (x : α) levels, (startAll x levels).count ⟨y, level, order⟩ = 0 :=
    fun x levels => List.count_eq_zero.mpr fun hmem => by
      have hzero : order = 0 := (mem_startAll.mp hmem).2.2
      omega
  cases hop with
  | climb x l =>
      simp only [calls]
      split
      next => simp [hstart]
      next => simp
  | ring x l o descend =>
      have hrest : (if descend = true then startAll x (levelsBelow l) else []).count
          ⟨y, level, order⟩ = 0 := by
        split
        next => exact hstart x _
        next => rfl
      rw [calls, List.count_cons, hrest]
      simp

variable {init : Multiset (Hop α)} {cfg : Cascade.Config (Hop α)}

theorem countP_emitted (hrun : Cascade.Reachable ov.React init cfg) (y : α) (order : ℕ) :
    cfg.emitted.countP (Hop.For y level order) =
      ((ov.callsOf cfg).flatMap (ov.sends 2)).countP (Hop.For y level order) := by
  rw [Cascade.Config.emitted, callsOf, Cascade.Config.handled, List.flatMap_assoc,
    List.flatMap_map, List.countP_flatMap, List.countP_flatMap]
  congr 1
  refine List.map_congr_left fun entry hentry => ?_
  exact countP_of_react (hrun.log_react hentry) y order

/-- Calls with a positive order are made on receipt of a message. -/
theorem count_callsOf (cfg : Cascade.Config (Hop α)) {y : α} {order : ℕ} (horder : 0 < order) :
    (ov.callsOf cfg).count ⟨y, level, order⟩ = cfg.handled.countP (Hop.For y level order) := by
  exact List.count_flatMap_eq_countP fun hop _ => count_calls horder

/-- A run whose level is entered through the ring only: the first messages
come from `origin`, calls that started the ring before the run. -/
structure RingRun (ov : Overlay α) (level : ℕ) (peers : List α) (origin : List (Call α))
    (init : Multiset (Hop α)) (cfg : Cascade.Config (Hop α)) : Prop where
  agreed : ov.Agreed level peers
  reachable : Cascade.Reachable ov.React init cfg
  origin_order : ∀ call ∈ origin, call.order = 0
  confined : ∀ call ∈ origin ++ ov.callsOf cfg, ov.Confined level peers call
  first : ∀ y order, init.countP (Hop.For y level order) =
    (origin.flatMap (ov.sends 2)).countP (Hop.For y level order)

namespace RingRun

variable {origin : List (Call α)} (h : RingRun ov level peers origin init cfg)
include h

theorem count_total {y : α} {order : ℕ} (horder : 0 < order) :
    (origin ++ ov.callsOf cfg).count ⟨y, level, order⟩ =
      cfg.handled.countP (Hop.For y level order) := by
  have horigin : origin.count ⟨y, level, order⟩ = 0 :=
    List.count_eq_zero.mpr fun hmem => by
      have hzero : order = 0 := h.origin_order _ hmem
      omega
  rw [List.count_append, horigin, count_callsOf cfg horder, zero_add]

/-- The messages ever sent to a child are counted by its parent's calls. -/
theorem countP_sent {s order i : ℕ} {x y : α} (hx : seat peers s = some x)
    (hy : seat peers (s + 2 ^ i) = some y) (horder : order < 2 ^ i)
    (hsize : order + 2 ^ i < peers.length) :
    init.countP (Hop.For y level (order + 2 ^ i)) +
        cfg.emitted.countP (Hop.For y level (order + 2 ^ i)) =
      (origin ++ ov.callsOf cfg).count ⟨x, level, order⟩ := by
  rw [h.first, countP_emitted h.reachable, ← List.countP_append, ← List.flatMap_append,
    h.agreed.countP_flatMap_sends hx hy horder hsize _ h.confined]

/-- A member receives no order more often than the member at the seat where
the orders count from has started the ring. -/
theorem countP_handled_le {s : ℕ} {x : α} (hx : seat peers s = some x) {m : ℕ} (hm : 0 < m)
    {y : α} (hsize : m < peers.length) (hy : seat peers (s + m) = some y) :
    cfg.handled.countP (Hop.For y level m) ≤ (origin ++ ov.callsOf cfg).count ⟨x, level, 0⟩ := by
  induction m, hm using PowerTree.induction generalizing y with
  | root i =>
      have hle := h.reachable.countP_handled_le (Hop.For y level (0 + 2 ^ i))
      rw [h.countP_sent hx hy (Nat.two_pow_pos i) (by omega), zero_add] at hle
      exact hle
  | child order i hpos horder ih =>
      obtain ⟨z, hz⟩ := exists_seat (by omega : 0 < peers.length) (s + order)
      have hle := h.reachable.countP_handled_le (Hop.For y level (order + 2 ^ i))
      rw [h.countP_sent hz (by rw [add_assoc]; exact hy) horder hsize,
        h.count_total hpos] at hle
      exact hle.trans (ih (by omega) hz)

/-- When nothing at this level is in flight, every member has received its
order once for each start. -/
theorem countP_handled_eq (hquiet : ∀ hop ∈ cfg.inFlight, ¬ hop.InRing level) {s : ℕ} {x : α}
    (hx : seat peers s = some x) {m : ℕ} (hm : 0 < m) {y : α} (hsize : m < peers.length)
    (hy : seat peers (s + m) = some y) :
    cfg.handled.countP (Hop.For y level m) = (origin ++ ov.callsOf cfg).count ⟨x, level, 0⟩ := by
  have hnone : ∀ (z : α) (order : ℕ), ∀ hop ∈ cfg.inFlight, ¬ Hop.For z level order hop :=
    fun z order hop hmem hfor => hquiet hop hmem hfor.to.2
  induction m, hm using PowerTree.induction generalizing y with
  | root i =>
      have heq := h.reachable.countP_handled_of_quiet (Hop.For y level (0 + 2 ^ i)) (hnone y _)
      rw [h.countP_sent hx hy (Nat.two_pow_pos i) (by omega), zero_add] at heq
      exact heq
  | child order i hpos horder ih =>
      obtain ⟨z, hz⟩ := exists_seat (by omega : 0 < peers.length) (s + order)
      have heq := h.reachable.countP_handled_of_quiet (Hop.For y level (order + 2 ^ i))
        (hnone y _)
      rw [h.countP_sent hz (by rw [add_assoc]; exact hy) horder hsize,
        h.count_total hpos] at heq
      exact heq.trans (ih (by omega) hz)

/-- Once a ring has been started and nothing at its level is in flight, every
member but the starter has received a message. -/
theorem covered (hquiet : ∀ hop ∈ cfg.inFlight, ¬ hop.InRing level) {x y : α}
    (hstart : ⟨x, level, 0⟩ ∈ origin ++ ov.callsOf cfg) (hx : x ∈ peers) (hy : y ∈ peers) :
    y = x ∨ ∃ order descend, .ring y level order descend ∈ cfg.handled := by
  obtain ⟨s, _, hs⟩ := seat_of_mem hx
  obtain ⟨m, hm, hseat⟩ := exists_seat_add s hy
  rcases Nat.eq_zero_or_pos m with rfl | hpos
  · exact Or.inl (Option.some.inj (hseat.symm.trans hs))
  · have hcount := h.countP_handled_eq hquiet hs hpos hm hseat
    have hlt : 0 < cfg.handled.countP (Hop.For y level m) := by
      rw [hcount]
      exact List.count_pos_iff.mpr hstart
    obtain ⟨hop, hmem, hfor⟩ := List.countP_pos_iff.mp hlt
    obtain ⟨descend, rfl⟩ := (of_decide_eq_true hfor).exists_eq
    exact Or.inr ⟨m, descend, hmem⟩

/-- A handled message of the ring was sent in a call of one of its members. -/
theorem exists_call {y : α} {order : ℕ} {hop : Hop α} (hhop : hop ∈ cfg.handled)
    (hfor : Hop.For y level order hop) :
    ∃ call ∈ origin ++ ov.callsOf cfg, ∃ sent ∈ ov.sends 2 call, Hop.For y level order sent := by
  have hpos : 0 < cfg.handled.countP (Hop.For y level order) :=
    List.countP_pos_iff.mpr ⟨hop, hhop, decide_eq_true hfor⟩
  have hle := h.reachable.countP_handled_le (Hop.For y level order)
  rw [h.first, countP_emitted h.reachable, ← List.countP_append, ← List.flatMap_append] at hle
  obtain ⟨sent, hsent, hsentFor⟩ := List.countP_pos_iff.mp (hpos.trans_le hle)
  obtain ⟨call, hcall, hmem⟩ := List.mem_flatMap.mp hsent
  exact ⟨call, hcall, sent, hmem, of_decide_eq_true hsentFor⟩

/-- Orders count the members after the starter. -/
theorem order_bounds {y : α} {order : ℕ} {hop : Hop α} (hhop : hop ∈ cfg.handled)
    (hfor : Hop.For y level order hop) (hy : y ∈ peers) : 0 < order ∧ order < peers.length := by
  obtain ⟨call, hcall, sent, hsent, hsentFor⟩ := h.exists_call hhop hfor
  obtain ⟨view, i, z, hring, _, hsize, htarget, rfl⟩ := (Overlay.mem_sends ov le_rfl).mp hsent
  obtain ⟨rfl, hlevel, rfl⟩ := hsentFor
  have hpow := Nat.two_pow_pos i
  rw [hlevel] at hring
  rcases h.confined call hcall hlevel with hnode | hout
  · obtain ⟨contacts, hring'⟩ := h.agreed.holds _ hnode
    obtain rfl : view = ⟨peers, contacts⟩ := Option.some.inj (hring.symm.trans hring')
    exact ⟨by omega, hsize⟩
  · exact (hout view hring z (List.mem_of_getElem? htarget) hy).elim

/-- If only `x` has started the ring, the member `m` seats after `x` handles
messages with order `m` only. -/
theorem countP_to_eq {s : ℕ} {x : α} (hx : seat peers s = some x)
    (honly : ∀ z ∈ peers, ⟨z, level, 0⟩ ∈ origin ++ ov.callsOf cfg → z = x) {m : ℕ} {y : α}
    (hm : m < peers.length) (hy : seat peers (s + m) = some y) :
    cfg.handled.countP (Hop.To y level) = cfg.handled.countP (Hop.For y level m) := by
  refine List.countP_congr fun hop hhop => ?_
  simp only [decide_eq_true_eq]
  refine ⟨fun hto => ?_, Hop.For.to⟩
  obtain ⟨order, hfor⟩ := hto.exists_for
  obtain ⟨hpos, hsize⟩ := h.order_bounds hhop hfor (mem_of_seat hy)
  obtain ⟨z, hz⟩ := exists_seat (by omega : 0 < peers.length) (s + m + (peers.length - order))
  have hseat : seat peers (s + m + (peers.length - order) + order) = some y := by
    rw [add_assoc, Nat.sub_add_cancel hsize.le, ← hy]
    exact congrArg (peers[·]?) (Nat.add_mod_right _ _)
  have hstarted : 0 < (origin ++ ov.callsOf cfg).count ⟨z, level, 0⟩ :=
    (List.countP_pos_iff.mpr ⟨hop, hhop, decide_eq_true hfor⟩).trans_le
      (h.countP_handled_le hz hpos hsize hseat)
  obtain rfl : z = x := honly z (mem_of_seat hz) (List.count_pos_iff.mp hstarted)
  have hmod : (s + (m + (peers.length - order))) % peers.length = s % peers.length := by
    rw [← add_assoc]
    exact seat_inj h.agreed.nodup hz hx
  obtain rfl : order = m := seats_cancel hmod hm hpos hsize
  exact hfor

/-- The only starter of a ring receives nothing in it. -/
theorem countP_to_starter {s : ℕ} {x : α} (hx : seat peers s = some x)
    (honly : ∀ z ∈ peers, ⟨z, level, 0⟩ ∈ origin ++ ov.callsOf cfg → z = x) :
    cfg.handled.countP (Hop.To x level) = 0 := by
  have hlen : 0 < peers.length := List.length_pos_of_mem (mem_of_seat hx)
  rw [h.countP_to_eq hx honly hlen hx, List.countP_eq_zero]
  intro hop hhop hfor
  have hpos := (h.order_bounds hhop (of_decide_eq_true hfor) (mem_of_seat hx)).1
  omega

/-- No member handles two messages of a ring that was started once. -/
theorem countP_to_le {x : α} (hx : x ∈ peers)
    (honly : ∀ z ∈ peers, ⟨z, level, 0⟩ ∈ origin ++ ov.callsOf cfg → z = x) {y : α}
    (hy : y ∈ peers) :
    cfg.handled.countP (Hop.To y level) ≤ (origin ++ ov.callsOf cfg).count ⟨x, level, 0⟩ := by
  obtain ⟨s, _, hs⟩ := seat_of_mem hx
  obtain ⟨m, hm, hseat⟩ := exists_seat_add s hy
  rcases Nat.eq_zero_or_pos m with rfl | hpos
  · obtain rfl : y = x := Option.some.inj (hseat.symm.trans hs)
    rw [h.countP_to_starter hs honly]
    exact Nat.zero_le _
  · rw [h.countP_to_eq hs honly hm hseat]
    exact h.countP_handled_le hs hpos hm hseat

end RingRun

end Overlay
