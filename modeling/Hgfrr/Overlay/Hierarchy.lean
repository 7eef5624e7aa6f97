import Hgfrr.Overlay.Ring

/-!
# Hierarchies of rings

In a hierarchy all members of a ring hold it, and the rings one level up are
formed by the contact nodes of rings. A broadcast then climbs to the single
top ring, starts it once, and comes down through the representatives.

`reaches_everyone` needs a representative for every ring below the top;
`at_most_once` needs that no ring has a second node that would start it.
-/

variable {α : Type*}

/-- Rings on which all members agree, over levels `0` to `top`. -/
structure IsHierarchy (ov : Overlay α) (members : Set α) (top : ℕ) : Prop where
  bottom : ∀ x ∈ members, ∃ view, ov.ring x 0 = some view
  highest : ∀ x ∈ members, ∀ level view, ov.ring x level = some view → level ≤ top
  nodup : ∀ x ∈ members, ∀ level view, ov.ring x level = some view → view.peers.Nodup
  own : ∀ x ∈ members, ∀ level view, ov.ring x level = some view → x ∈ view.peers
  inside : ∀ x ∈ members, ∀ level view, ov.ring x level = some view →
    ∀ y ∈ view.peers, y ∈ members
  agree : ∀ x ∈ members, ∀ level view, ov.ring x level = some view → ∀ y ∈ view.peers,
    ∃ other, ov.ring y level = some other ∧ other.peers = view.peers ∧
      ∀ c, c ∈ other.contacts ↔ c ∈ view.contacts
  contacts_ne_nil : ∀ x ∈ members, ∀ level view, ov.ring x level = some view →
    view.contacts ≠ []
  contacts_subset : ∀ x ∈ members, ∀ level view, ov.ring x level = some view →
    ∀ c ∈ view.contacts, c ∈ view.peers
  above : ∀ x ∈ members, ∀ level, level < top →
    ((∃ view, ov.ring x (level + 1) = some view) ↔
      ∃ view, ov.ring x level = some view ∧ x ∈ view.contacts)
  shared : ∀ x ∈ members, ∀ level view, ov.ring x level = some view → level < top →
    ∀ c ∈ view.contacts, ∀ c' ∈ view.contacts, ∀ upper, ov.ring c (level + 1) = some upper →
      c' ∈ upper.peers
  single : ∀ x ∈ members, ∀ y ∈ members, ∀ view other, ov.ring x top = some view →
    ov.ring y top = some other → y ∈ view.peers

namespace IsHierarchy

variable {ov : Overlay α} {members : Set α} {top : ℕ} (hier : IsHierarchy ov members top)
include hier

/-- Two rings of one level that share a node have the same members. -/
theorem peers_eq {x y z : α} (hx : x ∈ members) (hy : y ∈ members) {level : ℕ}
    {view other : RingView α} (hview : ov.ring x level = some view)
    (hother : ov.ring y level = some other) (hz : z ∈ view.peers) (hz' : z ∈ other.peers) :
    view.peers = other.peers := by
  obtain ⟨v, hv, hpeers, _⟩ := hier.agree x hx level view hview z hz
  obtain ⟨w, hw, hpeers', _⟩ := hier.agree y hy level other hother z hz'
  obtain rfl : v = w := Option.some.inj (hv.symm.trans hw)
  exact hpeers.symm.trans hpeers'

theorem agreed {x : α} (hx : x ∈ members) {level : ℕ} {view : RingView α}
    (hview : ov.ring x level = some view) : ov.Agreed level view.peers where
  nodup := hier.nodup x hx level view hview
  holds := fun y hy => by
    obtain ⟨⟨peers, contacts⟩, hother, hpeers, _⟩ := hier.agree x hx level view hview y hy
    exact ⟨contacts, by rw [hother, ← hpeers]⟩

theorem confined {x : α} (hx : x ∈ members) {level : ℕ} {view : RingView α}
    (hview : ov.ring x level = some view) {call : Overlay.Call α} (hcall : call.node ∈ members) :
    ov.Confined level view.peers call := by
  intro _
  by_cases hmem : call.node ∈ view.peers
  · exact Or.inl hmem
  · right
    intro other hother y hy hyview
    have heq := hier.peers_eq hx hcall hview hother hyview hy
    exact hmem (heq ▸ hier.own _ hcall level other hother)

/-- Nodes with a ring have all rings below it. -/
theorem ring_below {x : α} (hx : x ∈ members) {level : ℕ} {view : RingView α}
    (hview : ov.ring x level = some view) {l : ℕ} (hl : l ≤ level) :
    ∃ lower, ov.ring x l = some lower := by
  have htop := hier.highest x hx level view hview
  induction level generalizing view with
  | zero =>
      obtain rfl : l = 0 := by omega
      exact ⟨view, hview⟩
  | succ level ih =>
      rcases Nat.lt_or_ge l (level + 1) with hlt | hge
      · obtain ⟨lower, hlower, _⟩ := (hier.above x hx level htop).mp ⟨view, hview⟩
        exact ih hlower (by omega) (by omega)
      · obtain rfl : l = level + 1 := by omega
        exact ⟨view, hview⟩

/-- Below the top, the contact nodes of a ring form part of the ring above. -/
theorem mem_upper {x y : α} (hx : x ∈ members) {level : ℕ} {view : RingView α}
    (hview : ov.ring x level = some view) (hlevel : level < top) (hy : y ∈ view.contacts) :
    ∃ upper, ov.ring y (level + 1) = some upper ∧ ∀ c ∈ view.contacts, c ∈ upper.peers := by
  have hpeers := hier.contacts_subset x hx level view hview y hy
  have hymem := hier.inside x hx level view hview y hpeers
  obtain ⟨other, hother, _, hcontacts⟩ := hier.agree x hx level view hview y hpeers
  obtain ⟨upper, hupper⟩ :=
    (hier.above y hymem level hlevel).mpr ⟨other, hother, (hcontacts y).mpr hy⟩
  exact ⟨upper, hupper, fun c hc => hier.shared x hx level view hview hlevel y hy c hc upper hupper⟩

/-- A ring above one's own contains the contact nodes of one's own ring. -/
theorem mem_contacts_of_upper {x y : α} (hx : x ∈ members) {level : ℕ} {view upper : RingView α}
    (hview : ov.ring x level = some view) (hy : y ∈ view.peers)
    (hupper : ov.ring y (level + 1) = some upper) : y ∈ view.contacts := by
  have hymem := hier.inside x hx level view hview y hy
  have hlevel : level < top := hier.highest y hymem _ upper hupper
  obtain ⟨other, hother, _, hcontacts⟩ := hier.agree x hx level view hview y hy
  obtain ⟨own, hown, hyown⟩ := (hier.above y hymem level hlevel).mp ⟨upper, hupper⟩
  obtain rfl : other = own := Option.some.inj (hother.symm.trans hown)
  exact (hcontacts y).mp hyown

/-- Every level has a contact node of a ring. -/
theorem exists_contact {x : α} (hx : x ∈ members) {level : ℕ} (hlevel : level ≤ top) :
    ∃ t ∈ members, ∃ view, ov.ring t level = some view ∧ t ∈ view.contacts := by
  induction level with
  | zero =>
      obtain ⟨view, hview⟩ := hier.bottom x hx
      obtain ⟨t, ht⟩ := List.exists_mem_of_ne_nil _ (hier.contacts_ne_nil x hx 0 view hview)
      have hpeer := hier.contacts_subset x hx 0 view hview t ht
      obtain ⟨own, hown, _, hcontacts⟩ := hier.agree x hx 0 view hview t hpeer
      exact ⟨t, hier.inside x hx 0 view hview t hpeer, own, hown, (hcontacts t).mpr ht⟩
  | succ level ih =>
      obtain ⟨y, hy, lower, hlower, hcontact⟩ := ih (by omega)
      obtain ⟨view, hview, _⟩ := hier.mem_upper hy hlower (by omega) hcontact
      obtain ⟨t, ht⟩ := List.exists_mem_of_ne_nil _ (hier.contacts_ne_nil y hy _ view hview)
      have hpeer := hier.contacts_subset y hy _ view hview t ht
      obtain ⟨own, hown, _, hcontacts⟩ := hier.agree y hy _ view hview t hpeer
      exact ⟨t, hier.inside y hy _ view hview t hpeer, own, hown, (hcontacts t).mpr ht⟩

theorem contactsAt_top {x : α} (hx : x ∈ members) : ov.contactsAt x (top + 1) = [] := by
  unfold Overlay.contactsAt
  split
  next => rfl
  next view hview =>
    have := hier.highest x hx _ view hview
    omega

end IsHierarchy
