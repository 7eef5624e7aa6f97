import Hgfrr.Overlay.Hierarchy

/-!
# Everybody is reached

In a hierarchy exactly one message climbs at a time, until it arrives at a
contact node of the top ring. That node starts all its rings. Going down from
the top, each ring is started by its representative, or by the node that
started the ring above when both rings have the same members.
-/

variable {α : Type*}

namespace Hop

/-- Messages on their way up. -/
def Climbing : Hop α → Prop
  | climb _ _ => True
  | ring _ _ _ _ => False

instance : DecidablePred (Climbing (α := α))
  | climb _ _ => inferInstanceAs (Decidable True)
  | ring _ _ _ _ => inferInstanceAs (Decidable False)

@[simp] theorem climbing_climb (x : α) (level : ℕ) : Climbing (climb x level) := trivial

@[simp] theorem not_climbing_ring (x : α) (level order : ℕ) (descend : Bool) :
    ¬ Climbing (ring x level order descend) := id

/-- Messages that climb to one level. -/
def ClimbingTo (level : ℕ) : Hop α → Prop
  | climb _ l => l = level
  | ring _ _ _ _ => False

instance (level : ℕ) : DecidablePred (ClimbingTo (α := α) level)
  | climb _ l => inferInstanceAs (Decidable (l = level))
  | ring _ _ _ _ => inferInstanceAs (Decidable False)

@[simp] theorem climbingTo_climb {x : α} {level l : ℕ} :
    ClimbingTo level (climb x l) ↔ l = level := Iff.rfl

@[simp] theorem not_climbingTo_ring (x : α) (level l order : ℕ) (descend : Bool) :
    ¬ ClimbingTo l (ring x level order descend) := id

end Hop

namespace Overlay

variable {ov : Overlay α} {members : Set α} {top : ℕ}

/-- What holds of every message of a broadcast over a hierarchy: it is
addressed to a node that has the ring it is about. -/
def Placed (ov : Overlay α) (members : Set α) : Hop α → Prop
  | .climb x level => x ∈ members ∧ ∃ view, ov.ring x level = some view ∧ x ∈ view.contacts
  | .ring x level order descend =>
      x ∈ members ∧ (∃ view, ov.ring x level = some view) ∧
        ov.Sent (.ring x level order descend)

theorem Placed.sent {hop : Hop α} (h : ov.Placed members hop) : ov.Sent hop := by
  cases hop with
  | climb => trivial
  | ring => exact h.2.2

theorem Placed.receiver_mem {hop : Hop α} (h : ov.Placed members hop) :
    hop.receiver ∈ members := by
  cases hop <;> exact h.1

/-- At the top the receiver of a climbing message starts all its rings. -/
theorem atTop_iff (hier : IsHierarchy ov members top) {x : α} {level : ℕ}
    (hplaced : ov.Placed members (.climb x level)) : ov.AtTop x level ↔ level = top := by
  obtain ⟨hx, view, hview, hxview⟩ := hplaced
  constructor
  · intro htop
    by_contra hne
    have hlevel : level < top := lt_of_le_of_ne (hier.highest x hx level view hview) hne
    obtain ⟨upper, hupper⟩ := (hier.above x hx level hlevel).mpr ⟨view, hview, hxview⟩
    have hnone := htop.2
    simp only [contactsAt, hupper] at hnone
    exact hier.contacts_ne_nil x hx _ upper hupper hnone
  · rintro rfl
    exact ⟨by rw [hview]; rfl, hier.contactsAt_top hx⟩

variable [DecidableEq α]

theorem placed_of_mem_sends (hier : IsHierarchy ov members top) {call : Call α}
    (hcall : call.node ∈ members) {hop : Hop α} (h : hop ∈ ov.sends 2 call) :
    ov.Placed members hop := by
  have hsent := sent_of_mem_sends le_rfl h
  obtain ⟨view, i, y, hring, _, _, htarget, rfl⟩ := (Overlay.mem_sends ov le_rfl).mp h
  have hy : y ∈ view.peers := List.mem_of_getElem? htarget
  obtain ⟨other, hother, _⟩ := hier.agree _ hcall _ view hring y hy
  exact ⟨hier.inside _ hcall _ view hring y hy, ⟨other, hother⟩, hsent⟩

theorem placed_of_react (hier : IsHierarchy ov members top) {hop : Hop α} {outs : List (Hop α)}
    (hplaced : ov.Placed members hop) (h : ov.React hop outs) :
    ∀ o ∈ outs, ov.Placed members o := by
  intro o ho
  cases h with
  | @up x level c hring hc =>
      obtain rfl : o = .climb c (level + 1) := by simpa using ho
      unfold contactsAt at hc
      split at hc
      next => simp at hc
      next view hview =>
        have hcpeers := hier.contacts_subset x hplaced.1 _ view hview c hc
        obtain ⟨other, hother, _, hcontacts⟩ := hier.agree x hplaced.1 _ view hview c hcpeers
        exact ⟨hier.inside x hplaced.1 _ view hview c hcpeers, other, hother,
          (hcontacts c).mpr hc⟩
  | relay =>
      obtain ⟨call, hcall, hmem⟩ := List.mem_flatMap.mp ho
      refine placed_of_mem_sends hier ?_ hmem
      rw [node_of_mem_calls hcall]
      exact hplaced.receiver_mem

/-- Below the top a climbing message is passed on. -/
theorem react_climb_below (hier : IsHierarchy ov members top) {x : α} {level : ℕ}
    (hplaced : ov.Placed members (.climb x level)) (hlevel : level < top) {outs : List (Hop α)}
    (h : ov.React (.climb x level) outs) : ∃ c, outs = [.climb c (level + 1)] := by
  obtain ⟨hx, view, hview, hxview⟩ := hplaced
  cases h with
  | @up _ _ c => exact ⟨c, rfl⟩
  | relay hstay =>
      obtain ⟨upper, hupper⟩ := (hier.above x hx level hlevel).mpr ⟨view, hview, hxview⟩
      have hnone := hstay x level rfl (by rw [hview]; rfl)
      simp only [contactsAt, hupper] at hnone
      exact (hier.contacts_ne_nil x hx _ upper hupper hnone).elim

theorem countP_climbing_sends {base : ℕ} (calls : List (Call α)) :
    (calls.flatMap (ov.sends base)).countP (fun hop => hop.Climbing) = 0 := by
  rw [List.countP_eq_zero]
  intro hop hmem hclimb
  obtain ⟨call, _, hsent⟩ := List.mem_flatMap.mp hmem
  unfold sends at hsent
  split at hsent
  next => simp at hsent
  next view _ =>
    obtain ⟨i, _, hi⟩ := List.mem_filterMap.mp hsent
    obtain ⟨y, _, rfl⟩ := Option.map_eq_some_iff.mp hi
    exact Hop.not_climbing_ring _ _ _ _ (of_decide_eq_true hclimb)

/-- Every ring below the top has a contact node that relays downwards for it,
or contains the whole ring above. -/
def Represented (ov : Overlay α) (members : Set α) (top : ℕ) : Prop :=
  ∀ x ∈ members, ∀ level view, ov.ring x level = some view → level < top →
    (∃ c ∈ view.contacts, ov.represents c = true) ∨
      ∀ c ∈ view.contacts, ∀ upper, ov.ring c (level + 1) = some upper →
        ∀ y ∈ upper.peers, y ∈ view.peers

/-- A run of one broadcast over a hierarchy: a member has chosen a contact node
of its bottom ring and asked it to broadcast. -/
structure HierarchyRun (ov : Overlay α) (members : Set α) (top : ℕ) (cfg : Cascade.Config (Hop α)) :
    Prop where
  hier : IsHierarchy ov members top
  reachable : ∃ x ∈ members, ∃ c ∈ ov.contactsAt x 0,
    Cascade.Reachable ov.React {.climb c 0} cfg

namespace HierarchyRun

variable {cfg : Cascade.Config (Hop α)} (h : HierarchyRun ov members top cfg)
include h

theorem placed :
    (∀ hop ∈ cfg.inFlight, ov.Placed members hop) ∧
      ∀ hop ∈ cfg.handled, ov.Placed members hop := by
  obtain ⟨x, hx, c, hc, hrun⟩ := h.reachable
  refine hrun.all_messages ?_ fun hop outs => placed_of_react h.hier
  intro hop hhop
  obtain rfl : hop = .climb c 0 := by simpa using hhop
  unfold contactsAt at hc
  split at hc
  next => simp at hc
  next view hview =>
    have hcpeers := h.hier.contacts_subset x hx 0 view hview c hc
    obtain ⟨other, hother, _, hcontacts⟩ := h.hier.agree x hx 0 view hview c hcpeers
    exact ⟨h.hier.inside x hx 0 view hview c hcpeers, other, hother, (hcontacts c).mpr hc⟩

/-- Either one message climbs, or one has arrived at the top. -/
theorem climbing_or_arrived :
    cfg.inFlight.countP (fun hop => hop.Climbing) +
      cfg.handled.countP (fun hop => hop.ClimbingTo top) = 1 := by
  have hhier := h.hier
  obtain ⟨x, hx, c, hc, hrun⟩ := h.reachable
  induction hrun with
  | refl =>
      rw [Cascade.start_inFlight, ← Multiset.cons_zero, Multiset.countP_cons]
      simp [Cascade.Config.handled]
  | tail hprior hdeliver ih =>
      have hprev : HierarchyRun ov members top _ := ⟨hhier, x, hx, c, hc, hprior⟩
      have hplaced := hprev.placed.1
      have hcount := ih hprev
      obtain ⟨message, rest, outs, hflight, hstep, rfl⟩ := hdeliver
      have hmessage := hplaced message (by simp [hflight])
      simp only [hflight, Multiset.countP_cons, Cascade.Config.handled, Multiset.countP_add,
        Multiset.coe_countP, List.map_cons, List.countP_cons] at hcount ⊢
      cases message with
      | ring y level order descend =>
          cases hstep with
          | relay =>
              rw [countP_climbing_sends]
              simp only [Hop.not_climbing_ring, Hop.not_climbingTo_ring] at hcount ⊢
              simpa using hcount
      | climb y level =>
          obtain ⟨view, hview, _⟩ := hmessage.2
          rcases Nat.lt_or_ge level top with hlevel | hge
          · obtain ⟨c', rfl⟩ := react_climb_below hhier hmessage hlevel hstep
            simp only [Hop.climbing_climb, Hop.climbingTo_climb, hlevel.ne] at hcount ⊢
            simp only [List.countP_cons, List.countP_nil, Hop.climbing_climb]
            simpa [add_comm] using hcount
          · obtain rfl : level = top := le_antisymm (hhier.highest y hmessage.1 _ view hview) hge
            have htop := (atTop_iff hhier hmessage).mpr rfl
            cases hstep with
            | up _ hc' => simp [htop.2] at hc'
            | relay =>
                rw [countP_climbing_sends]
                simp only [Hop.climbing_climb, Hop.climbingTo_climb] at hcount ⊢
                simp only [if_true, decide_true] at hcount ⊢
                omega

theorem call_node_mem {call : Call α} (hcall : call ∈ ov.callsOf cfg) :
    call.node ∈ members := by
  obtain ⟨hop, hhop, hmem⟩ := mem_callsOf.mp hcall
  rw [node_of_mem_calls hmem]
  exact (h.placed.2 hop hhop).receiver_mem

/-- Every ring of the hierarchy is entered through its own calls only. -/
theorem ringRun {x : α} (hx : x ∈ members) {level : ℕ} {view : RingView α}
    (hview : ov.ring x level = some view) : ∃ init, RingRun ov level view.peers [] init cfg := by
  obtain ⟨_, _, c, _, hrun⟩ := h.reachable
  refine ⟨_, h.hier.agreed hx hview, hrun, by simp, ?_, ?_⟩
  · intro call hcall
    exact h.hier.confined hx hview (h.call_node_mem (by simpa using hcall))
  · intro y order
    rw [← Multiset.cons_zero, Multiset.countP_cons]
    simp

/-- Whoever starts a ring below starts the one that is being looked at too. -/
theorem call_below {x : α} {level l : ℕ} (hcall : ⟨x, level, 0⟩ ∈ ov.callsOf cfg)
    (hl : l < level) : ⟨x, l, 0⟩ ∈ ov.callsOf cfg := by
  obtain ⟨hop, hhop, hmem⟩ := mem_callsOf.mp hcall
  exact mem_callsOf.mpr ⟨hop, hhop, start_below (h.placed.2 hop hhop).sent hmem hl⟩

/-- Climbing messages that have arrived make their receiver start its rings. -/
theorem call_of_arrived {x : α} (harrived : .climb x top ∈ cfg.handled) {level : ℕ}
    (hlevel : level ≤ top) : ⟨x, level, 0⟩ ∈ ov.callsOf cfg := by
  have htop := (atTop_iff h.hier (h.placed.2 _ harrived)).mpr rfl
  exact mem_callsOf.mpr ⟨_, harrived, mem_calls_climb.mpr ⟨htop, rfl, hlevel, rfl⟩⟩

theorem exists_arrived (hquiet : cfg.inFlight = 0) : ∃ x ∈ members, .climb x top ∈ cfg.handled := by
  have hcount := h.climbing_or_arrived
  rw [hquiet, Multiset.countP_zero, zero_add] at hcount
  obtain ⟨hop, hhop, hto⟩ := List.countP_pos_iff.mp (hcount ▸ Nat.one_pos)
  cases hop with
  | ring => simp at hto
  | climb x level =>
      obtain rfl : level = top := by simpa using hto
      exact ⟨x, (h.placed.2 _ hhop).1, hhop⟩

/-- In a complete run every ring has been started by one of its members. -/
theorem exists_starter (hrep : ov.Represented members top) (hquiet : cfg.inFlight = 0) {x : α}
    (hx : x ∈ members) {level : ℕ} {view : RingView α} (hview : ov.ring x level = some view) :
    ∃ s ∈ view.peers, ⟨s, level, 0⟩ ∈ ov.callsOf cfg := by
  obtain ⟨d, hd⟩ := Nat.exists_eq_add_of_le (h.hier.highest x hx level view hview)
  induction d generalizing x level view with
  | zero =>
      obtain rfl : top = level := hd
      obtain ⟨t, ht, harrived⟩ := h.exists_arrived hquiet
      obtain ⟨_, other, hother, _⟩ := h.placed.2 _ harrived
      exact ⟨t, h.hier.single x hx t ht view other hview hother, h.call_of_arrived harrived le_rfl⟩
  | succ d ih =>
      have hlevel : level < top := by omega
      obtain ⟨c, hc⟩ := List.exists_mem_of_ne_nil _ (h.hier.contacts_ne_nil x hx level view hview)
      obtain ⟨upper, hupper, hcontacts⟩ := h.hier.mem_upper hx hview hlevel hc
      have hcmem := h.hier.inside x hx level view hview c
        (h.hier.contacts_subset x hx level view hview c hc)
      obtain ⟨s, hs, hstart⟩ := ih hcmem hupper (by omega)
      have hbelow := h.call_below hstart (Nat.lt_succ_self level)
      rcases hrep x hx level view hview hlevel with ⟨r, hr, hrepresents⟩ | hsame
      · have hrpeers := h.hier.contacts_subset x hx level view hview r hr
        obtain ⟨init, hring⟩ := h.ringRun hcmem hupper
        have hcovered := hring.covered (by simp [hquiet]) (by simpa using hstart) hs
          (hcontacts r hr)
        rcases hcovered with rfl | ⟨order, descend, hhandled⟩
        · exact ⟨r, hrpeers, hbelow⟩
        · have hdescend := (h.placed.2 _ hhandled).sent.2
          refine ⟨r, hrpeers, mem_callsOf.mpr ⟨_, hhandled, mem_calls_ring.mpr (Or.inr ?_)⟩⟩
          exact ⟨by simp [hdescend, hrepresents], rfl, Nat.lt_succ_self level, rfl⟩
      · exact ⟨s, hsame c hc upper hupper s hs, hbelow⟩

/-- In a complete run every member has received a message inside a ring, or is
the node at which the climb ended. -/
theorem reaches_everyone (hrep : ov.Represented members top) (hquiet : cfg.inFlight = 0) {x : α}
    (hx : x ∈ members) :
    .climb x top ∈ cfg.handled ∨
      ∃ level order descend, .ring x level order descend ∈ cfg.handled := by
  obtain ⟨view, hview⟩ := h.hier.bottom x hx
  obtain ⟨s, hs, hstart⟩ := h.exists_starter hrep hquiet hx hview
  obtain ⟨init, hring⟩ := h.ringRun hx hview
  have hown := h.hier.own x hx 0 view hview
  rcases hring.covered (by simp [hquiet]) (by simpa using hstart) hs hown with
    rfl | ⟨order, descend, hhandled⟩
  · obtain ⟨hop, hhop, hmem⟩ := mem_callsOf.mp hstart
    have hplaced := h.placed.2 hop hhop
    obtain rfl : x = hop.receiver := node_of_mem_calls hmem
    cases hop with
    | climb y level =>
        obtain rfl := (atTop_iff h.hier hplaced).mp (mem_calls_climb.mp hmem).1
        exact Or.inl hhop
    | ring y level order descend => exact Or.inr ⟨level, order, descend, hhop⟩
  · exact Or.inr ⟨0, order, descend, hhandled⟩

end HierarchyRun

end Overlay
