import Hgfrr.Overlay.Basic

/-!
# Every broadcast ends

No agreement between the nodes is needed here. A climbing message goes up, a
message inside a ring goes to a larger order in a ring of its level, and a
start goes down: the ranks below descend, so a bound on the levels and on the
sizes of rings bounds every run.
-/

variable {α : Type*}

/-- A set of nodes that only know each other, with bounds on their rings. -/
structure IsBounded (ov : Overlay α) (members : Set α) (levels size : ℕ) : Prop where
  level_lt : ∀ x ∈ members, ∀ level view, ov.ring x level = some view → level < levels
  size_le : ∀ x ∈ members, ∀ level view, ov.ring x level = some view →
    view.peers.length ≤ size
  peers_mem : ∀ x ∈ members, ∀ level view, ov.ring x level = some view →
    ∀ y ∈ view.peers, y ∈ members
  contacts_mem : ∀ x ∈ members, ∀ level view, ov.ring x level = some view →
    ∀ y ∈ view.contacts, y ∈ members

namespace IsBounded

variable {ov : Overlay α} {members : Set α} {levels size : ℕ}

/-- Climbs rank above all messages inside rings, and these by level and then
by how far their order is from the largest. -/
def rank (levels size : ℕ) : Hop α → ℕ
  | .climb _ level => levels * (size + 1) + (levels - level)
  | .ring _ level order _ => level * (size + 1) + (size - order)

/-- Messages to members, inside rings of existing levels. -/
def Within (members : Set α) (levels : ℕ) : Hop α → Prop
  | .climb x _ => x ∈ members
  | .ring x level _ _ => x ∈ members ∧ level < levels

theorem Within.receiver_mem {hop : Hop α} (h : Within members levels hop) :
    hop.receiver ∈ members := by
  cases hop with
  | climb => exact h
  | ring => exact h.1

/-- A message of a lower level ranks below everything of a higher one. -/
theorem level_rank_lt (size order : ℕ) {l level : ℕ} (h : l < level) :
    l * (size + 1) + (size - order) < level * (size + 1) := by
  have hle := Nat.mul_le_mul_right (size + 1) (Nat.succ_le_of_lt h)
  rw [Nat.succ_mul] at hle
  omega

variable (hbound : IsBounded ov members levels size)
include hbound

theorem calls_length_le {hop : Hop α} (hwithin : Within members levels hop) :
    (ov.calls hop).length ≤ levels := by
  cases hop with
  | climb x level =>
      simp only [Overlay.calls]
      split
      next htop =>
        obtain ⟨view, hview⟩ := Option.isSome_iff_exists.mp htop.1
        have := hbound.level_lt x hwithin level view hview
        simp [Overlay.startAll, levelsBelow]
        omega
      next => simp
  | ring x level order descend =>
      have := hwithin.2
      cases descend <;> simp [Overlay.calls, Overlay.startAll, levelsBelow] <;> omega

variable [DecidableEq α]

theorem sends_length_le {call : Overlay.Call α} (hcall : call.node ∈ members) :
    (ov.sends 2 call).length ≤ size := by
  unfold Overlay.sends
  split
  next => simp
  next view hview =>
    have hlen := List.length_filterMap_le (fun i =>
      (Overlay.target view.peers call.node (2 ^ i)).map fun y =>
        Hop.ring y call.level (call.order + 2 ^ i) (call.level != 0 && ov.represents y))
      (PowerTree.exponents 2 call.order view.peers.length)
    have hexponents : (PowerTree.exponents 2 call.order view.peers.length).length ≤
        view.peers.length := by
      simpa [PowerTree.exponents] using List.length_filter_le _ (List.range view.peers.length)
    exact hlen.trans (hexponents.trans (hbound.size_le _ hcall _ view hview))

theorem sends_rank {call : Overlay.Call α} (hcall : call.node ∈ members) {sent : Hop α}
    (hsent : sent ∈ ov.sends 2 call) :
    Within members levels sent ∧ call.level < levels ∧
      ∃ order, call.order < order ∧ order ≤ size ∧
        rank levels size sent = call.level * (size + 1) + (size - order) := by
  obtain ⟨view, i, y, hview, _, hsize, htarget, rfl⟩ := (Overlay.mem_sends ov le_rfl).mp hsent
  have hlevel := hbound.level_lt _ hcall _ view hview
  have hle := hbound.size_le _ hcall _ view hview
  have hpow := Nat.two_pow_pos i
  exact ⟨⟨hbound.peers_mem _ hcall _ view hview y (List.mem_of_getElem? htarget), hlevel⟩, hlevel,
    call.order + 2 ^ i, by omega, by omega, rfl⟩

/-- Handling a message puts boundedly many messages in flight, all of smaller
rank. -/
theorem react_descends {hop : Hop α} (hwithin : Within members levels hop)
    {outs : List (Hop α)} (h : ov.React hop outs) :
    outs.length < levels * size + 2 ∧
      ∀ o ∈ outs, Within members levels o ∧ rank levels size o < rank levels size hop := by
  cases h with
  | @up x level c hring hc =>
      simp only [Overlay.contactsAt] at hc
      split at hc
      next => simp at hc
      next view hview =>
        have hlevel := hbound.level_lt x hwithin _ view hview
        refine ⟨by simp, fun o ho => ?_⟩
        obtain rfl : o = .climb c (level + 1) := by simpa using ho
        exact ⟨hbound.contacts_mem x hwithin _ view hview c hc, by simp only [rank]; omega⟩
  | relay =>
      have hnode : ∀ call ∈ ov.calls hop, call.node ∈ members := fun call hcall =>
        Overlay.node_of_mem_calls hcall ▸ hwithin.receiver_mem
      refine ⟨?_, fun o ho => ?_⟩
      · have hsum : ((ov.calls hop).map fun call => (ov.sends 2 call).length).sum ≤
            (ov.calls hop).length * size := by
          have hle := List.sum_le_card_nsmul ((ov.calls hop).map fun call =>
            (ov.sends 2 call).length) size fun w hw => by
              obtain ⟨call, hcall, rfl⟩ := List.mem_map.mp hw
              exact hbound.sends_length_le (hnode call hcall)
          simpa using hle
        have hcalls := Nat.mul_le_mul_right size (hbound.calls_length_le hwithin)
        rw [List.length_flatMap]
        omega
      · obtain ⟨call, hcall, hsent⟩ := List.mem_flatMap.mp ho
        obtain ⟨ho', hlevel, order, horder, hsize, hrank⟩ :=
          hbound.sends_rank (hnode call hcall) hsent
        refine ⟨ho', ?_⟩
        rw [hrank]
        cases hop with
        | climb x level =>
            have hlt := level_rank_lt size order hlevel
            simp only [rank]
            omega
        | ring x level m descend =>
            simp only [rank]
            rcases Overlay.mem_calls_ring.mp hcall with rfl | ⟨_, _, hbelow, _⟩
            · simp only at horder ⊢
              omega
            · have hlt := level_rank_lt size order hbelow
              omega

/-- One message to a member causes boundedly many deliveries. -/
theorem log_length_le {hop : Hop α} (hwithin : Within members levels hop)
    {cfg : Cascade.Config (Hop α)} (hrun : Cascade.Reachable ov.React {hop} cfg) :
    cfg.log.length ≤ (levels * size + 2) ^ rank levels size hop := by
  have hle := hrun.log_length_le (Within members levels) (rank levels size)
    (by simpa using hwithin) fun m outs hm hstep => hbound.react_descends hm hstep
  simpa using hle

end IsBounded
