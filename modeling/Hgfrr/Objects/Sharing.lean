import Hgfrr.Objects.Making

/-!
# One object for each node of a ring

An id stands in up to five places of a ring. When all of them refer to one object, every
lookup of the id shows the same times, however often the node is updated.
-/

namespace Hgfrr

/-- An id occurs in a ring at a reference: it is the key of the pointer in a map, or the id
of the node that is pointed to. -/
inductive RingObjects.Occurs (ring : RingObjects) (store : Store) (id : Str) (ref : ℕ) : Prop
  | contactNodes (h : (id, some ref) ∈ ring.contactNodes)
  | peerSet (h : (id, some ref) ∈ ring.peerSet)
  | peerList (h : some ref ∈ ring.peerList) (hid : (store.object ref).node.id = id)
  | predecessor (h : ring.predecessor = some ref) (hid : (store.object ref).node.id = id)
  | successor (h : ring.successor = some ref) (hid : (store.object ref).node.id = id)

/-- All occurrences of an id refer to the same object. -/
def RingObjects.OneObject (ring : RingObjects) (store : Store) : Prop :=
  ∀ id ref ref', ring.Occurs store id ref → ring.Occurs store id ref' → ref = ref'

/-- An update of the times of a node. -/
inductive Update
  | ping (level : ℕ) (id : Str) (now : ℤ)
  | pong (level : ℕ) (id : Str) (now : ℤ)
deriving DecidableEq, Repr

def Update.apply (table : ObjectTable) (store : Store) : Update → Except Fault Store
  | ping level id now => table.setNodeLastPingNow store level id now
  | pong level id now => table.setNodeLastPongNow store level id now

namespace ObjectTable

/-- One update after the other. -/
def runUpdates (table : ObjectTable) (updates : List Update) (store : Store) : Except Fault Store :=
  updates.foldlM (Update.apply table) store

/-- A lookup of an id in the ring of a level returns a copy. -/
inductive Sees (table : ObjectTable) (store : Store) (level : ℕ) (id : Str) (copy : NodeObject) :
    Prop
  | getNodeCopy (h : table.getNodeCopy store level id = .ok (some copy))
  | getPeer (h : table.getPeer store level id = .ok (some copy))
  | getPeerByOrder (order : ℤ) (h : table.getPeerByOrder store level order = .ok (some copy))
      (hid : copy.node.id = id)
  | getPeerSet (copies : List NodeObject) (h : table.getPeerSet store level = .ok copies)
      (hmem : copy ∈ copies) (hid : copy.node.id = id)
  | getContactNodes (copies : List NodeObject) (h : table.getContactNodes store level = .ok copies)
      (hmem : copy ∈ copies) (hid : copy.node.id = id)
  | getSuccessor (h : table.getSuccessor store level = .ok (some copy)) (hid : copy.node.id = id)

/-- In each ring an id stands for one object, and after any updates all lookups of an id in a
ring show the same times. -/
structure OneNodeOneObject (table : ObjectTable) (store : Store) : Prop where
  one_object : ∀ ring ∈ table.tables, ring.OneObject store
  same_times : ∀ updates after, table.runUpdates updates store = .ok after →
    ∀ level id copy copy', table.Sees after level id copy → table.Sees after level id copy' →
      copy.lastPing = copy'.lastPing ∧ copy.lastPong = copy'.lastPong

/-- Maps have nodes at their ids. -/
def Keyed (table : ObjectTable) (store : Store) : Prop :=
  ∀ ring ∈ table.tables, ∀ id ref,
    (id, some ref) ∈ ring.contactNodes ∨ (id, some ref) ∈ ring.peerSet →
      (store.object ref).node.id = id

end ObjectTable

/-! ## Updates -/

/-- Stores in which the objects have the same nodes. -/
def Store.SameNodes (after store : Store) : Prop :=
  ∀ ref, (after.object ref).node = (store.object ref).node

namespace ObjectTable

variable {table : ObjectTable} {store after : Store} {level : ℕ} {id : Str}

theorem sameNodes_of_apply {update : Update} (h : update.apply table store = .ok after) :
    after.SameNodes store := by
  cases update with
  | ping level id now =>
      obtain ⟨pointer, _, h⟩ := Except.bind_eq_ok.mp h
      cases pointer with
      | none =>
          obtain rfl := Except.ok.inj h
          exact fun _ => rfl
      | some ref =>
          obtain rfl := Except.ok.inj h
          exact store.setLastPingNow_node ref now
  | pong level id now =>
      obtain ⟨pointer, _, h⟩ := Except.bind_eq_ok.mp h
      cases pointer with
      | none =>
          obtain rfl := Except.ok.inj h
          exact fun _ => rfl
      | some ref =>
          obtain rfl := Except.ok.inj h
          exact store.setLastPongNow_node ref now

/-- Updates change times only. -/
theorem sameNodes_of_runUpdates {updates : List Update}
    (h : table.runUpdates updates store = .ok after) : after.SameNodes store := by
  induction updates generalizing store with
  | nil =>
      obtain rfl := Except.ok.inj h
      exact fun _ => rfl
  | cons update updates ih =>
      rw [runUpdates, List.foldlM_cons] at h
      obtain ⟨middle, hmiddle, h⟩ := Except.bind_eq_ok.mp h
      exact fun ref => (ih h ref).trans (sameNodes_of_apply hmiddle ref)

/-! ## Lookups -/

theorem ringUnchecked_eq_ok {ring : RingObjects} (h : table.ringUnchecked level = .ok ring) :
    table.tables[level]? = some ring := by
  unfold ringUnchecked at h
  split at h
  next other hother => rw [hother, Except.ok.inj h]
  next => exact nomatch h

/-- What a query returns comes from a ring, or is its answer without one. -/
theorem inRing_eq_ok {α : Type} {absent result : α} {query : RingObjects → Except Fault α}
    (h : table.inRing level absent query = .ok result) :
    result = absent ∨ ∃ ring, table.tables[level]? = some ring ∧ query ring = .ok result := by
  unfold inRing at h
  split at h
  next => exact Or.inl (Except.ok.inj h).symm
  next =>
    obtain ⟨ring, hring, h⟩ := Except.bind_eq_ok.mp h
    unfold ringAt at hring
    split at hring
    next other hother =>
      obtain rfl := Except.ok.inj hring
      exact Or.inr ⟨other, hother, h⟩
    next => exact nomatch hring

/-- A node that is found is at its id in a map. -/
theorem mem_of_getNode {ring : RingObjects} {ref : ℕ} (h : ring.getNode id = some ref) :
    (id, some ref) ∈ ring.contactNodes ∨ (id, some ref) ∈ ring.peerSet := by
  unfold RingObjects.getNode at h
  split at h
  next node hnode => exact Or.inl (AssocMap.mem_of_lookup (h ▸ hnode))
  next =>
    cases hpeer : ring.peerSet.lookup id with
    | none =>
        rw [hpeer] at h
        exact nomatch h
    | some node =>
        rw [hpeer] at h
        exact Or.inr (AssocMap.mem_of_lookup (hpeer.trans (congrArg some h)))

theorem map_eq_ok {α β : Type} {x : Except Fault α} {f : α → β} {b : β} (h : x.map f = .ok b) :
    ∃ a, x = .ok a ∧ f a = b := by
  cases x with
  | error fault => exact nomatch h
  | ok a => exact ⟨a, rfl, Except.ok.inj h⟩

theorem copyNode_eq_ok {pointer : Pointer} {copy : NodeObject}
    (h : store.copyNode pointer = .ok copy) :
    ∃ ref, pointer = some ref ∧ store.object ref = copy := by
  cases pointer with
  | none => exact nomatch h
  | some ref => exact ⟨ref, rfl, Except.ok.inj h⟩

/-- A lookup copies the object at a reference where the id occurs. -/
theorem occurs_of_sees {copy : NodeObject} (hkeyed : table.Keyed store)
    (h : table.Sees store level id copy) :
    ∃ ring, table.tables[level]? = some ring ∧
      ∃ ref, ring.Occurs store id ref ∧ store.object ref = copy := by
  have hcopy : ∀ {copy}, table.getNodeCopy store level id = .ok (some copy) →
      ∃ ring, table.tables[level]? = some ring ∧
        ∃ ref, ring.Occurs store id ref ∧ store.object ref = copy := by
    intro copy hcopy
    obtain ⟨pointer, hpointer, hcopy⟩ := Except.bind_eq_ok.mp hcopy
    obtain ⟨ring, hring, rfl⟩ := map_eq_ok hpointer
    cases hnode : ring.getNode id with
    | none =>
        rw [hnode] at hcopy
        exact nomatch hcopy
    | some ref =>
        rw [hnode] at hcopy
        refine ⟨ring, ringUnchecked_eq_ok hring, ref, ?_, Option.some.inj (Except.ok.inj hcopy)⟩
        exact (mem_of_getNode hnode).elim .contactNodes .peerSet
  cases h with
  | getNodeCopy h => exact hcopy h
  | getPeer h =>
      unfold getPeer at h
      split at h
      next => exact nomatch h
      next => exact hcopy h
  | getPeerByOrder order h hid =>
      unfold getPeerByOrder at h
      split at h
      next => exact nomatch h
      next =>
        obtain ⟨ring, hring, h⟩ := Except.bind_eq_ok.mp h
        by_cases horder : order < 0
        · rw [if_pos horder] at h
          exact nomatch h
        · rw [if_neg horder] at h
          dsimp only at h
          split at h
          next pointer hpointer =>
            obtain ⟨object, hobject, h⟩ := Except.bind_eq_ok.mp h
            obtain rfl := Option.some.inj (Except.ok.inj h)
            obtain ⟨ref, rfl, rfl⟩ := copyNode_eq_ok hobject
            exact ⟨ring, ringUnchecked_eq_ok hring, ref,
              .peerList (List.mem_of_getElem? hpointer) hid, rfl⟩
          next => exact nomatch h
  | getPeerSet copies h hmem hid =>
      rcases inRing_eq_ok h with rfl | ⟨ring, hring, h⟩
      · exact absurd hmem List.not_mem_nil
      · obtain ⟨⟨key, pointer⟩, hentry, hpointer⟩ := Except.mapM_eq_ok h hmem
        obtain ⟨ref, rfl, rfl⟩ := copyNode_eq_ok hpointer
        have hkey := hkeyed ring (List.mem_of_getElem? hring) key ref (Or.inr hentry)
        exact ⟨ring, hring, ref, .peerSet ((hkey.symm.trans hid) ▸ hentry), rfl⟩
  | getContactNodes copies h hmem hid =>
      rcases inRing_eq_ok h with rfl | ⟨ring, hring, h⟩
      · exact absurd hmem List.not_mem_nil
      · obtain ⟨⟨key, pointer⟩, hentry, hpointer⟩ := Except.mapM_eq_ok h hmem
        obtain ⟨ref, rfl, rfl⟩ := copyNode_eq_ok hpointer
        have hkey := hkeyed ring (List.mem_of_getElem? hring) key ref (Or.inl hentry)
        exact ⟨ring, hring, ref, .contactNodes ((hkey.symm.trans hid) ▸ hentry), rfl⟩
  | getSuccessor h hid =>
      rcases inRing_eq_ok h with hnone | ⟨ring, hring, h⟩
      · exact nomatch hnone
      · obtain ⟨object, hobject, heq⟩ := map_eq_ok h
        obtain rfl := Option.some.inj heq
        obtain ⟨ref, hsucc, rfl⟩ := copyNode_eq_ok hobject
        exact ⟨ring, hring, ref, .successor hsucc hid, rfl⟩

end ObjectTable

section SameNodes

variable {table : ObjectTable} {ring : RingObjects} {store after : Store}

theorem Store.SameNodes.occurs (h : after.SameNodes store) {id : Str} {ref : ℕ}
    (hoccurs : ring.Occurs after id ref) : ring.Occurs store id ref := by
  cases hoccurs with
  | contactNodes hmem => exact .contactNodes hmem
  | peerSet hmem => exact .peerSet hmem
  | peerList hmem hid => exact .peerList hmem (h ref ▸ hid)
  | predecessor heq hid => exact .predecessor heq (h ref ▸ hid)
  | successor heq hid => exact .successor heq (h ref ▸ hid)

theorem Store.SameNodes.keyed (h : after.SameNodes store) (hkeyed : table.Keyed store) :
    table.Keyed after := fun ring hring id ref hentry => h ref ▸ hkeyed ring hring id ref hentry

/-- One object for an id is enough for all lookups to agree. -/
theorem ObjectTable.oneNodeOneObject (hkeyed : table.Keyed store)
    (hone : ∀ ring ∈ table.tables, ring.OneObject store) : table.OneNodeOneObject store := by
  refine ⟨hone, fun updates after hrun level id copy copy' hsees hsees' => ?_⟩
  have hsame := sameNodes_of_runUpdates hrun
  obtain ⟨ring, hring, ref, hoccurs, rfl⟩ := occurs_of_sees (hsame.keyed hkeyed) hsees
  obtain ⟨ring', hring', ref', hoccurs', rfl⟩ := occurs_of_sees (hsame.keyed hkeyed) hsees'
  obtain rfl := Option.some.inj (hring.symm.trans hring')
  obtain rfl := hone ring (List.mem_of_getElem? hring) id ref ref' (hsame.occurs hoccurs)
    (hsame.occurs hoccurs')
  exact ⟨rfl, rfl⟩

end SameNodes

/-! ## Rings as they are built -/

/-- The table of rings as they are built. -/
def builtTable (selfId : Str) (rings : List SharedRing) : ObjectTable :=
  ⟨selfId, rings.map SharedRing.objects⟩

/-- Pointers of one id are the same. -/
def SharedRing.OneEach (ring : SharedRing) : Prop :=
  ∀ shared ∈ ring.all, ∀ shared' ∈ ring.all, shared.id = shared'.id → shared.ref = shared'.ref

namespace SharedRing

variable {ring : SharedRing} {store : Store}

theorem mem_entries {nodes : List SharedNode} {id : Str} {ref : ℕ} :
    (id, some ref) ∈ SharedNode.entries nodes ↔
      ∃ shared ∈ nodes, shared.id = id ∧ shared.ref = ref := by
  simp [SharedNode.entries]

theorem mem_all {shared : SharedNode} : shared ∈ ring.all ↔
    shared ∈ ring.contactNodes ∨ shared ∈ ring.peerSet ∨ shared ∈ ring.peerList ∨
      ring.predecessor = some shared ∨ ring.successor = some shared := by
  simp only [all, List.mem_append, Option.mem_toList, or_assoc]

/-- The ids occur at the pointers of the ring. -/
theorem occurs_iff (hholds : store.Holds ring.all) {id : Str} {ref : ℕ} :
    ring.objects.Occurs store id ref ↔ ∃ shared ∈ ring.all, shared.id = id ∧ shared.ref = ref := by
  have hid : ∀ shared ∈ ring.all, (store.object shared.ref).node.id = shared.id :=
    fun shared hshared => congrArg Node.id (hholds shared hshared).2
  constructor
  · intro h
    cases h with
    | contactNodes h =>
        obtain ⟨shared, hmem, heq⟩ := mem_entries.mp h
        exact ⟨shared, mem_all.mpr (Or.inl hmem), heq⟩
    | peerSet h =>
        obtain ⟨shared, hmem, heq⟩ := mem_entries.mp h
        exact ⟨shared, mem_all.mpr (Or.inr (Or.inl hmem)), heq⟩
    | peerList h hnode =>
        obtain ⟨shared, hmem, heq⟩ := List.mem_map.mp h
        obtain rfl := Option.some.inj heq
        have hall := mem_all.mpr (Or.inr (Or.inr (Or.inl hmem)))
        exact ⟨shared, hall, (hid shared hall).symm.trans hnode, rfl⟩
    | predecessor h hnode =>
        obtain ⟨shared, hpred, rfl⟩ := Option.map_eq_some_iff.mp h
        have hall := mem_all.mpr (Or.inr (Or.inr (Or.inr (Or.inl hpred))))
        exact ⟨shared, hall, (hid shared hall).symm.trans hnode, rfl⟩
    | successor h hnode =>
        obtain ⟨shared, hsucc, rfl⟩ := Option.map_eq_some_iff.mp h
        have hall := mem_all.mpr (Or.inr (Or.inr (Or.inr (Or.inr hsucc))))
        exact ⟨shared, hall, (hid shared hall).symm.trans hnode, rfl⟩
  · rintro ⟨shared, hshared, rfl, rfl⟩
    rcases mem_all.mp hshared with hcontact | hpeer | hpeer | hpred | hsucc
    · exact .contactNodes (mem_entries.mpr ⟨shared, hcontact, rfl, rfl⟩)
    · exact .peerSet (mem_entries.mpr ⟨shared, hpeer, rfl, rfl⟩)
    · exact .peerList (List.mem_map_of_mem hpeer) (hid shared hshared)
    · exact .predecessor (Option.map_eq_some_iff.mpr ⟨shared, hpred, rfl⟩) (hid shared hshared)
    · exact .successor (Option.map_eq_some_iff.mpr ⟨shared, hsucc, rfl⟩) (hid shared hshared)

theorem oneObject_iff (hholds : store.Holds ring.all) :
    ring.objects.OneObject store ↔ ring.OneEach := by
  constructor
  · intro h shared hshared shared' hshared' heq
    exact h shared.id _ _ ((occurs_iff hholds).mpr ⟨shared, hshared, rfl, rfl⟩)
      ((occurs_iff hholds).mpr ⟨shared', hshared', heq.symm, rfl⟩)
  · intro h id ref ref' hoccurs hoccurs'
    obtain ⟨shared, hshared, rfl, rfl⟩ := (occurs_iff hholds).mp hoccurs
    obtain ⟨shared', hshared', heq, rfl⟩ := (occurs_iff hholds).mp hoccurs'
    exact h shared hshared shared' hshared' heq.symm

end SharedRing

theorem builtTable_keyed {selfId : Str} {rings : List SharedRing} {store : Store}
    (hholds : ∀ ring ∈ rings, store.Holds ring.all) : (builtTable selfId rings).Keyed store := by
  intro ring hring id ref hentry
  obtain ⟨built, hbuilt, rfl⟩ := List.mem_map.mp hring
  have hmem : ∃ shared ∈ built.all, shared.id = id ∧ shared.ref = ref := by
    rcases hentry with hcontact | hpeer
    · obtain ⟨shared, hshared, heq⟩ := SharedRing.mem_entries.mp hcontact
      exact ⟨shared, by simp [SharedRing.all, hshared], heq⟩
    · obtain ⟨shared, hshared, heq⟩ := SharedRing.mem_entries.mp hpeer
      exact ⟨shared, by simp [SharedRing.all, hshared], heq⟩
  obtain ⟨shared, hshared, rfl, rfl⟩ := hmem
  exact congrArg Node.id (hholds built hbuilt shared hshared).2

/-- A built table has one object for a node exactly if its rings have. -/
theorem builtTable_oneNodeOneObject_iff {selfId : Str} {rings : List SharedRing} {store : Store}
    (hholds : ∀ ring ∈ rings, store.Holds ring.all) :
    (builtTable selfId rings).OneNodeOneObject store ↔ ∀ ring ∈ rings, ring.OneEach := by
  constructor
  · intro h ring hring
    exact (SharedRing.oneObject_iff (hholds ring hring)).mp
      (h.one_object _ (List.mem_map_of_mem hring))
  · intro h
    apply ObjectTable.oneNodeOneObject (builtTable_keyed hholds)
    intro ring hring
    obtain ⟨built, hbuilt, rfl⟩ := List.mem_map.mp hring
    exact (SharedRing.oneObject_iff (hholds built hbuilt)).mpr (h built hbuilt)

end Hgfrr
