import Hgfrr.Overlay.Reach

/-!
# Rings are started once

A node starts a ring because the climb ended at it, or because it is a
representative that was reached in the ring above. If every ring has at most
one contact node of either kind, no ring is started twice and no node handles
two messages of one level.
-/

variable {α : Type*} [DecidableEq α]

namespace Overlay

variable {ov : Overlay α} {members : Set α} {top : ℕ}

/-- At most one contact node of each ring below the top is a representative or
the node `t` at which the climb ends. -/
def OneEntry (ov : Overlay α) (members : Set α) (top : ℕ) (t : α) : Prop :=
  ∀ x ∈ members, ∀ level view, ov.ring x level = some view → level < top →
    ∀ c ∈ view.contacts, ∀ c' ∈ view.contacts, (ov.represents c = true ∨ c = t) →
      (ov.represents c' = true ∨ c' = t) → c = c'

/-- Messages that make a node start its ring at a level. -/
def Entering (ov : Overlay α) (x : α) (level : ℕ) (hop : Hop α) : Prop :=
  ⟨x, level, 0⟩ ∈ ov.calls hop

instance (x : α) (level : ℕ) : DecidablePred (ov.Entering x level) :=
  fun hop => inferInstanceAs (Decidable (_ ∈ ov.calls hop))

theorem count_start_eq {hop : Hop α} (hsent : ov.Sent hop) (x : α) (level : ℕ) :
    (ov.calls hop).count ⟨x, level, 0⟩ = if ov.Entering x level hop then 1 else 0 := by
  have hall : ∀ (y : α) (l : ℕ), (startAll y (levelsBelow l)).Nodup := fun y l =>
    (nodup_levelsBelow l).map fun i j hij => congrArg Call.level hij
  split
  next hmem =>
    refine List.count_eq_one_of_mem ?_ hmem
    cases hop with
    | climb y l =>
        simp only [calls]
        split
        next => exact hall y (l + 1)
        next => exact List.nodup_nil
    | ring y l order descend =>
        have hpos : 0 < order := hsent.1
        refine List.nodup_cons.mpr ⟨fun hin => ?_, ?_⟩
        · split at hin
          next =>
            have hzero : order = 0 := (mem_startAll.mp hin).2.2
            omega
          next => simp at hin
        · split
          next => exact hall y l
          next => exact List.nodup_nil
  next hmem => exact List.count_eq_zero.mpr hmem

namespace HierarchyRun

variable {cfg : Cascade.Config (Hop α)} (h : HierarchyRun ov members top cfg)
include h

theorem count_starts (x : α) (level : ℕ) :
    (ov.callsOf cfg).count ⟨x, level, 0⟩ = cfg.handled.countP (ov.Entering x level) :=
  List.count_flatMap_eq_countP fun hop hhop => count_start_eq (h.placed.2 hop hhop).sent x level

/-- At the top only the end of the climb starts a ring. -/
theorem count_starts_top (x : α) :
    (ov.callsOf cfg).count ⟨x, top, 0⟩ = cfg.handled.count (.climb x top) := by
  rw [h.count_starts, List.count]
  refine List.countP_congr fun hop hhop => ?_
  have hplaced := h.placed.2 hop hhop
  rw [decide_eq_true_eq, beq_iff_eq, Entering]
  cases hop with
  | climb y level =>
      rw [mem_calls_climb, atTop_iff h.hier hplaced]
      simp only [Hop.climb.injEq]
      constructor
      · rintro ⟨rfl, rfl, _⟩
        exact ⟨rfl, rfl⟩
      · rintro ⟨rfl, rfl⟩
        exact ⟨rfl, rfl, le_rfl, trivial⟩
  | ring y level order descend =>
      obtain ⟨hy, ⟨view, hview⟩, hpos, _⟩ := hplaced
      have hlevel := h.hier.highest y hy level view hview
      rw [mem_calls_ring]
      simp only [Call.mk.injEq, reduceCtorEq, iff_false, not_or, not_and]
      exact ⟨by omega, by omega⟩

/-- Below the top, a node starts its ring as often as the ring above, and once
more for every message there that asks it to relay downwards. -/
theorem count_starts_le {x : α} {level : ℕ} (hlevel : level < top) :
    (ov.callsOf cfg).count ⟨x, level, 0⟩ ≤ (ov.callsOf cfg).count ⟨x, level + 1, 0⟩ +
      cfg.handled.countP (fun hop => hop.To x (level + 1) ∧ ov.represents x = true) := by
  rw [h.count_starts, h.count_starts]
  refine List.countP_le_add fun hop hhop hentering => ?_
  have hplaced := h.placed.2 hop hhop
  cases hop with
  | climb y l =>
      left
      obtain ⟨htop, hnode, _, _⟩ := mem_calls_climb.mp hentering
      have hl := (atTop_iff h.hier hplaced).mp htop
      exact mem_calls_climb.mpr ⟨htop, hnode, by simp only; omega, rfl⟩
  | ring y l order descend =>
      rcases mem_calls_ring.mp hentering with heq | ⟨hdescend, hnode, hl, _⟩
      · have hzero : (0 : ℕ) = order := congrArg Call.order heq
        have hpos : 0 < order := hplaced.sent.1
        omega
      · have hrepresents : ov.represents y = true := by
          have := hplaced.sent.2
          simp_all
        obtain rfl : x = y := hnode
        rcases Nat.eq_or_lt_of_le (Nat.succ_le_of_lt hl) with heq | hlt
        · exact Or.inr ⟨⟨rfl, heq.symm⟩, hrepresents⟩
        · exact Or.inl (mem_calls_ring.mpr (Or.inr ⟨hdescend, rfl, hlt, rfl⟩))

/-- Below the top, only contact nodes start a ring. -/
theorem contact_of_start {x z : α} (hx : x ∈ members) {level : ℕ} {view : RingView α}
    (hview : ov.ring x level = some view) (hz : z ∈ view.peers) (hlevel : level < top)
    (hcall : ⟨z, level, 0⟩ ∈ ov.callsOf cfg) : z ∈ view.contacts := by
  obtain ⟨hop, hhop, hmem⟩ := mem_callsOf.mp hcall
  have hplaced := h.placed.2 hop hhop
  have hzmem := h.hier.inside x hx level view hview z hz
  cases hop with
  | climb y l =>
      obtain ⟨htop, hnode, _, _⟩ := mem_calls_climb.mp hmem
      obtain rfl : z = y := hnode
      obtain ⟨own, hown, _⟩ := hplaced.2
      have hl := (atTop_iff h.hier hplaced).mp htop
      obtain ⟨upper, hupper⟩ := h.hier.ring_below hzmem hown (by omega : level + 1 ≤ l)
      exact h.hier.mem_contacts_of_upper hx hview hz hupper
  | ring y l order descend =>
      obtain rfl : z = y := node_of_mem_calls hmem
      obtain ⟨own, hown⟩ := hplaced.2.1
      have hl : level < l := by
        rcases mem_calls_ring.mp hmem with heq | ⟨_, _, hlt, _⟩
        · have hzero : (0 : ℕ) = order := congrArg Call.order heq
          have hpos : 0 < order := hplaced.sent.1
          omega
        · exact hlt
      obtain ⟨upper, hupper⟩ := h.hier.ring_below hzmem hown (by omega : level + 1 ≤ l)
      exact h.hier.mem_contacts_of_upper hx hview hz hupper

/-- A node of a ring whose upper ring has at most one starter starts its ring
at most once: as that starter, or as a representative that was reached. -/
theorem start_below_once {z : α} (hz : z ∈ members) {level : ℕ} (hlevel : level < top)
    {upper : RingView α} (hupper : ov.ring z (level + 1) = some upper)
    (hcount : ∀ y ∈ upper.peers, (ov.callsOf cfg).count ⟨y, level + 1, 0⟩ ≤ 1)
    (hunique : ∀ y ∈ upper.peers, ∀ y' ∈ upper.peers, ⟨y, level + 1, 0⟩ ∈ ov.callsOf cfg →
      ⟨y', level + 1, 0⟩ ∈ ov.callsOf cfg → y = y') :
    (ov.callsOf cfg).count ⟨z, level, 0⟩ ≤ 1 ∧ (⟨z, level, 0⟩ ∈ ov.callsOf cfg →
      ⟨z, level + 1, 0⟩ ∈ ov.callsOf cfg ∨ ov.represents z = true) := by
  obtain ⟨init, hring⟩ := h.ringRun hz hupper
  have hzupper := h.hier.own z hz _ upper hupper
  have hle := h.count_starts_le (x := z) hlevel
  have hasked : cfg.handled.countP (fun hop => hop.To z (level + 1) ∧ ov.represents z = true) ≤
      cfg.handled.countP (Hop.To z (level + 1)) :=
    List.countP_mono_left fun hop _ hto => decide_eq_true (of_decide_eq_true hto).1
  by_cases hstarter : ⟨z, level + 1, 0⟩ ∈ ov.callsOf cfg
  · obtain ⟨s, _, hs⟩ := seat_of_mem hzupper
    have hnone := hring.countP_to_starter hs fun y hy hcall =>
      hunique y hy z hzupper (by simpa using hcall) hstarter
    have hone := hcount z hzupper
    exact ⟨by omega, fun _ => Or.inl hstarter⟩
  · have hzero : (ov.callsOf cfg).count ⟨z, level + 1, 0⟩ = 0 := List.count_eq_zero.mpr hstarter
    have hto : cfg.handled.countP (Hop.To z (level + 1)) ≤ 1 := by
      by_cases hany : ∃ y ∈ upper.peers, ⟨y, level + 1, 0⟩ ∈ ov.callsOf cfg
      · obtain ⟨y, hy, hcall⟩ := hany
        have honce := hring.countP_to_le hy (fun y' hy' hcall' =>
          hunique y' hy' y hy (by simpa using hcall') hcall) hzupper
        rw [List.nil_append] at honce
        exact honce.trans (hcount y hy)
      · have hnever := hring.countP_to_le hzupper (fun y hy hcall =>
          absurd ⟨y, hy, by simpa using hcall⟩ hany) hzupper
        rw [List.nil_append, hzero] at hnever
        omega
    refine ⟨by omega, fun hcall => Or.inr ?_⟩
    have hpos := List.count_pos_iff.mpr hcall
    obtain ⟨hop, _, hasks⟩ := List.countP_pos_iff.mp (by omega : 0 < cfg.handled.countP
      (fun hop => hop.To z (level + 1) ∧ ov.represents z = true))
    exact (of_decide_eq_true hasks).2

/-- Each ring is started at most once, by a representative or by the node `t`
at which the climb ends. -/
theorem one_start {t : α} (ht : ∀ x, .climb x top ∈ cfg.handled → x = t)
    (hentry : ov.OneEntry members top t) {x : α} (hx : x ∈ members) {level : ℕ}
    {view : RingView α} (hview : ov.ring x level = some view) :
    (∀ z ∈ view.peers, (ov.callsOf cfg).count ⟨z, level, 0⟩ ≤ 1 ∧
      (⟨z, level, 0⟩ ∈ ov.callsOf cfg → ov.represents z = true ∨ z = t)) ∧
    ∀ z ∈ view.peers, ∀ z' ∈ view.peers, ⟨z, level, 0⟩ ∈ ov.callsOf cfg →
      ⟨z', level, 0⟩ ∈ ov.callsOf cfg → z = z' := by
  obtain ⟨d, hd⟩ := Nat.exists_eq_add_of_le (h.hier.highest x hx level view hview)
  induction d generalizing x level view with
  | zero =>
      obtain rfl : top = level := hd
      have hstarter : ∀ z, ⟨z, top, 0⟩ ∈ ov.callsOf cfg → z = t := fun z hz => by
        have hcount := List.count_pos_iff.mpr hz
        rw [h.count_starts_top] at hcount
        exact ht z (List.count_pos_iff.mp hcount)
      refine ⟨fun z _ => ⟨?_, fun hz => Or.inr (hstarter z hz)⟩,
        fun z _ z' _ hz hz' => (hstarter z hz).trans (hstarter z' hz').symm⟩
      rw [h.count_starts_top]
      have harrived := h.climbing_or_arrived
      refine le_trans (List.countP_mono_left fun hop _ heq => ?_)
        (by omega : cfg.handled.countP (fun hop => hop.ClimbingTo top) ≤ 1)
      rw [beq_iff_eq.mp heq]
      exact decide_eq_true rfl
  | succ d ih =>
      have hlevel : level < top := by omega
      -- a member that starts this ring is one of its contact nodes
      have hone : ∀ z ∈ view.peers, (ov.callsOf cfg).count ⟨z, level, 0⟩ ≤ 1 ∧
          (⟨z, level, 0⟩ ∈ ov.callsOf cfg →
            z ∈ view.contacts ∧ (ov.represents z = true ∨ z = t)) := by
        intro z hz
        have hzmem := h.hier.inside x hx level view hview z hz
        by_cases hcontact : z ∈ view.contacts
        · obtain ⟨upper, hupper, _⟩ := h.hier.mem_upper hx hview hlevel hcontact
          obtain ⟨hcount, hunique⟩ := ih hzmem hupper (by omega)
          obtain ⟨hle, hentered⟩ := h.start_below_once hzmem hlevel hupper
            (fun y hy => (hcount y hy).1) hunique
          refine ⟨hle, fun hcall => ⟨hcontact, ?_⟩⟩
          rcases hentered hcall with habove | hrepresents
          · exact (hcount z (h.hier.own z hzmem _ upper hupper)).2 habove
          · exact Or.inl hrepresents
        · have hnone : ⟨z, level, 0⟩ ∉ ov.callsOf cfg := fun hcall =>
            hcontact (h.contact_of_start hx hview hz hlevel hcall)
          exact ⟨by rw [List.count_eq_zero.mpr hnone]; omega, fun hcall => absurd hcall hnone⟩
      refine ⟨fun z hz => ⟨(hone z hz).1, fun hcall => ((hone z hz).2 hcall).2⟩, ?_⟩
      intro z hz z' hz' hcall hcall'
      exact hentry x hx level view hview hlevel z ((hone z hz).2 hcall).1 z'
        ((hone z' hz').2 hcall').1 ((hone z hz).2 hcall).2 ((hone z' hz').2 hcall').2

/-- No node handles two messages of one level. -/
theorem handles_once {t : α} (ht : ∀ x, .climb x top ∈ cfg.handled → x = t)
    (hentry : ov.OneEntry members top t) (x : α) (level : ℕ) :
    cfg.handled.countP (Hop.To x level) ≤ 1 := by
  by_contra hmany
  obtain ⟨hop, hhop, hto⟩ := List.countP_pos_iff.mp (by omega : 0 < cfg.handled.countP
    (Hop.To x level))
  have hplaced := h.placed.2 hop hhop
  obtain ⟨rfl, hlevel⟩ := of_decide_eq_true hto
  cases hop with
  | climb => exact hlevel
  | ring y l order descend =>
      obtain rfl : l = level := hlevel
      obtain ⟨hy, ⟨view, hview⟩, _⟩ := hplaced
      obtain ⟨hcount, hunique⟩ := h.one_start ht hentry hy hview
      obtain ⟨init, hring⟩ := h.ringRun hy hview
      have hypeers := h.hier.own y hy l view hview
      have hle : cfg.handled.countP (Hop.To y l) ≤ 1 := by
        by_cases hany : ∃ z ∈ view.peers, ⟨z, l, 0⟩ ∈ ov.callsOf cfg
        · obtain ⟨z, hz, hcall⟩ := hany
          have honce := hring.countP_to_le hz (fun z' hz' hcall' =>
            hunique z' hz' z hz (by simpa using hcall') hcall) hypeers
          rw [List.nil_append] at honce
          exact honce.trans (hcount z hz).1
        · have hnever := hring.countP_to_le hypeers (fun z hz hcall =>
            absurd ⟨z, hz, by simpa using hcall⟩ hany) hypeers
          rw [List.nil_append] at hnever
          exact hnever.trans (hcount y hypeers).1
      exact hmany hle

end HierarchyRun

end Overlay
