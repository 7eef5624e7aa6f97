import Hgfrr.Objects.Sharing
import Hgfrr.Topology.ContactStatus

/-!
# Copies for every place

When a node forms the structure, it puts a copy of its own at every place. Even the first
peer of its district stands in the set of peers and in their list as two objects, so the
rings have one object for a node only if they have no nodes at all.
-/

namespace Hgfrr

namespace BaseApp

variable {p : Topology} {startingPortNumber : ℕ} {order : MapOrder} {selfId : Str}
  {readings : ℕ → ℤ × ℤ} {ring : SharedRing} {rings : List SharedRing} {next : List SharedNode}
  {store after : Store}

theorem climbObjects_of_not_isAmong {levels : List ObjectLevel} {list : List SharedNode}
    (h : (objectBuilder p startingPortNumber order selfId readings).isAmongShared list = false) :
    climbObjects p startingPortNumber order selfId readings levels list store =
      .ok ([], store) := by
  induction levels with
  | nil => rfl
  | cons level levels ih => rw [climbObjects, if_neg (by simp [h]), ih]

/-- Without its objects the lowest ring is that of the district. -/
theorem peerIds_of_peerObjects
    (h : (objectBuilder p startingPortNumber order selfId readings).peerObjects p.numNodesInDist
      p.numCnodesInDist store = .ok (ring, next, after)) :
    ring.peerList.map SharedNode.id =
      (builder p startingPortNumber order selfId).peerIds p.numNodesInDist := by
  have herase := (objectBuilder p startingPortNumber order selfId readings).erase_peerObjects
    p.numNodesInDist p.numCnodesInDist store
  rw [h] at herase
  have hpeer : (builder p startingPortNumber order selfId).peerLevel p.numNodesInDist
      p.numCnodesInDist = .ok (ring.nodes, next.map SharedNode.node) := herase.symm
  have hself := (TableBuilder.mem_peerLevel builder_namesNodes hpeer).1
  obtain ⟨shown, hshown, hshows, _⟩ := TableBuilder.peerLevel_eq
    (builder_names p startingPortNumber order selfId) p.numNodesInDist p.numCnodesInDist hself
    fun id => length_mem_peerIds hself
  obtain ⟨hring, _⟩ := Prod.mk.inj (Except.ok.inj (hpeer.symm.trans hshown))
  rw [← hshows.peerIds_eq fun _ => rfl, ← hring, ← SharedNode.map_id_node]
  rfl

/-- The first peer stands in the set of peers and in their list as two objects. -/
theorem not_oneEach (hpos : 0 < p.numNodesInDist)
    (h : (objectBuilder p startingPortNumber order selfId readings).peerObjects p.numNodesInDist
      p.numCnodesInDist store = .ok (ring, next, after)) : ¬ring.OneEach := by
  intro hone
  obtain ⟨nodes, hmade⟩ := ObjectBuilder.peerObjects_madeOf h
  have hlength : ring.peerList.length = p.numNodesInDist := by
    have hids := congrArg List.length (peerIds_of_peerObjects h)
    simpa [TableBuilder.peerIds] using hids
  have hpeers := hmade.peerList_eq
  have hset := hmade.peerSet_eq
  cases hobjects : ((objectBuilder p startingPortNumber order selfId readings).makeNodes store
      nodes).1 with
  | nil =>
      rw [hobjects] at hpeers
      rw [hpeers, List.map_nil, List.length_nil] at hlength
      omega
  | cons made objects =>
      rw [hobjects] at hpeers hset
      let put := (objectBuilder p startingPortNumber order selfId readings).put
      have hinList : put .peerList made ∈ ring.all := by
        rw [SharedRing.mem_all, hpeers]
        exact Or.inr (Or.inr (Or.inl (List.mem_map_of_mem List.mem_cons_self)))
      have hinSet : put .peerSet made ∈ ring.all := by
        have hnodup : ((((made :: objects).map (put .peerSet)).foldl SharedNode.insert []).map
            SharedNode.id).Nodup := SharedNode.nodup_ids_inserts List.nodup_nil
        rw [SharedRing.mem_all, hset, SharedNode.mem_iterate hnodup]
        exact Or.inr (Or.inl (SharedNode.head_mem_inserts _ _))
      have hrefs := hone _ hinList _ hinSet rfl
      exact absurd hrefs (by simp [put, ObjectBuilder.put, objectBuilder, Place.number])

/-- The tables have one object for a node exactly if the district has no nodes. -/
theorem formObjects_oneNodeOneObject_iff
    (h : formObjects p startingPortNumber order selfId readings store = .ok (rings, after)) :
    (builtTable selfId rings).OneNodeOneObject after ↔ p.numNodesInDist = 0 := by
  rw [builtTable_oneNodeOneObject_iff (formObjects_holds h)]
  obtain ⟨⟨ring, list, middle⟩, hring, h⟩ := Except.bind_eq_ok.mp h
  obtain ⟨⟨above, last⟩, habove, h⟩ := Except.bind_eq_ok.mp h
  obtain ⟨rfl, rfl⟩ := Prod.mk.inj (Except.ok.inj h)
  constructor
  · intro hone
    by_contra hpos
    exact not_oneEach (Nat.pos_of_ne_zero hpos) hring (hone ring List.mem_cons_self)
  · intro hzero
    obtain ⟨nodes, hmade⟩ := ObjectBuilder.peerObjects_madeOf hring
    have hids := peerIds_of_peerObjects hring
    rw [hzero] at hids
    have hnodes : nodes = [] := by
      rw [← hmade.map_node_peerList, List.map_eq_nil_iff.mp hids, List.map_nil]
    subst hnodes
    obtain ⟨hlist, hall⟩ := hmade.eq_nil
    rw [climbObjects_of_not_isAmong (by simp [hlist, ObjectBuilder.isAmongShared])] at habove
    obtain ⟨rfl, _⟩ := Prod.mk.inj (Except.ok.inj habove)
    simp [SharedRing.OneEach, hall]

end BaseApp

/-- No objects. -/
def noObjects : Store := ⟨0, fun _ => ⟨⟨[], [], 0⟩, 0, 0⟩⟩

theorem eq_ok_getD {α : Type} {x : Except Fault α} (a : α) (h : x.toOption.isSome) :
    x = .ok (x.toOption.getD a) := by
  cases x with
  | error fault => exact nomatch h
  | ok b => rfl

open Coords BaseApp

/-- The rings that the first node of two districts forms, with clocks that stand at zero. -/
def formedOfTwoDistricts : List SharedRing × Store :=
  (formObjects twoDistricts 7000 insertionOrder (text (move 0 0 0 0)) (fun _ => (0, 0))
    noObjects).toOption.getD ([], noObjects)

theorem formObjects_twoDistricts :
    formObjects twoDistricts 7000 insertionOrder (text (move 0 0 0 0)) (fun _ => (0, 0)) noObjects =
      .ok formedOfTwoDistricts :=
  eq_ok_getD _ (by decide +kernel)

end Hgfrr
