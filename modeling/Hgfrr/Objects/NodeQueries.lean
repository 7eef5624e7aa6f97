import Hgfrr.Objects.Sharing
import Hgfrr.Topology.Formation
import Hgfrr.Topology.Tables

/-!
# Queries without objects

On a table as it is built, with at least one ring, a query returns copies of the nodes
that the query of the table without objects returns.
-/

namespace Hgfrr

/-- The table of the nodes. -/
def nodeTable (selfId : Str) (rings : List SharedRing) : NodeTable :=
  ⟨selfId, rings.map SharedRing.nodes⟩

section Queries

variable {selfId : Str} {rings : List SharedRing} {store : Store} {level : ℕ}

theorem getTopLevel_builtTable :
    (builtTable selfId rings).getTopLevel = (nodeTable selfId rings).getTopLevel := by
  simp [ObjectTable.getTopLevel, NodeTable.getTopLevel, builtTable, nodeTable]

theorem isContactNode_builtTable :
    (builtTable selfId rings).isContactNode level =
      (nodeTable selfId rings).isContactNode level := by
  rw [ObjectTable.isContactNode, NodeTable.isContactNode, getTopLevel_builtTable]

/-- A query about a ring, if the nodes give the same answer. -/
theorem map_inRing_builtTable {α β : Type} {absent : α} {query : RingObjects → Except Fault α}
    {f : α → β} {nodeQuery : Ring → β}
    (hquery : ∀ ring ∈ rings, (query ring.objects).map f = .ok (nodeQuery ring.nodes)) :
    ((builtTable selfId rings).inRing level absent query).map f =
      if (nodeTable selfId rings).getTopLevel < level then .ok (f absent)
      else ((nodeTable selfId rings).ringAt level).map nodeQuery := by
  rw [ObjectTable.inRing, getTopLevel_builtTable]
  split
  next => rfl
  next =>
    rw [ObjectTable.ringAt, NodeTable.ringAt, builtTable, nodeTable, List.getElem?_map,
      List.getElem?_map]
    cases hring : rings[level]? with
    | none => rfl
    | some ring => exact hquery ring (List.mem_of_getElem? hring)

theorem map_self {α : Type} (x : Except Fault α) : x.map (fun a => a) = x := by
  cases x <;> rfl

theorem getPeerListSize_builtTable :
    (builtTable selfId rings).getPeerListSize level =
      (nodeTable selfId rings).getPeerListSize level := by
  rw [← map_self ((builtTable selfId rings).getPeerListSize level)]
  apply map_inRing_builtTable
  intro ring _
  simp [Except.map, SharedRing.objects, SharedRing.nodes]

/-- The search finds the first position of the id. -/
theorem findId_eq (id : Str) {nodes : List SharedNode} (hholds : store.Holds nodes) (i : ℕ) :
    RingObjects.findId store id (nodes.map fun shared => some shared.ref) i =
      .ok (if id ∈ nodes.map SharedNode.id then (i + (nodes.map SharedNode.id).idxOf id : ℕ)
        else -1) := by
  induction nodes generalizing i with
  | nil => rfl
  | cons shared nodes ih =>
      obtain ⟨⟨_, hnode⟩, hrest⟩ := List.forall_mem_cons.mp hholds
      have hstep : RingObjects.findId store id
          ((shared :: nodes).map fun shared => some shared.ref) i =
            if (store.object shared.ref).node.id = id then .ok (i : ℤ)
            else RingObjects.findId store id (nodes.map fun shared => some shared.ref) (i + 1) :=
        rfl
      rw [hstep, hnode]
      change (if shared.id = id then _ else _) = _
      by_cases heq : shared.id = id
      · simp [heq]
      · rw [if_neg heq, ih hrest]
        simp only [List.map_cons, List.mem_cons, Ne.symm heq, false_or, List.idxOf_cons_ne _ heq,
          Nat.succ_eq_add_one, Nat.add_assoc, Nat.add_comm 1]

variable (hholds : ∀ ring ∈ rings, store.Holds ring.all)
include hholds

theorem getNodeIdInVector_builtTable (id : Str) :
    (builtTable selfId rings).getNodeIdInVector store level id =
      (nodeTable selfId rings).getNodeIdInVector level id := by
  rw [← map_self ((builtTable selfId rings).getNodeIdInVector store level id)]
  apply map_inRing_builtTable
  intro ring hring
  have hpeers : store.Holds ring.peerList := fun shared hshared =>
    hholds ring hring shared (SharedRing.mem_all.mpr (Or.inr (Or.inr (Or.inl hshared))))
  have hfind := findId_eq id hpeers 0
  rw [Nat.zero_add, ← SharedNode.map_id_node] at hfind
  exact congrArg (Except.map fun i => i) hfind

theorem getContactNodes_builtTable :
    ((builtTable selfId rings).getContactNodes store level).map
        (List.map NodeObject.node) = (nodeTable selfId rings).getContactNodes level := by
  apply map_inRing_builtTable
  intro ring hring
  have hcontacts : store.Holds ring.contactNodes := fun shared hshared =>
    hholds ring hring shared (SharedRing.mem_all.mpr (Or.inl hshared))
  have hcopies : (ring.objects.contactNodes.mapM fun entry => store.copyNode entry.2) =
      .ok (ring.contactNodes.map fun shared => store.object shared.ref) := by
    rw [SharedRing.objects, SharedNode.entries, List.mapM_map]
    exact mapM_eq_ok_map fun shared _ => rfl
  have hnodes : (ring.contactNodes.map fun shared => store.object shared.ref).map NodeObject.node =
      ring.contactNodes.map SharedNode.node := by
    rw [List.map_map]
    exact List.map_congr_left fun shared hshared => (hcontacts shared hshared).2
  rw [hcopies, Except.map, hnodes, SharedRing.nodes, nodeEntries, List.map_map]
  exact congrArg Except.ok (List.map_id _).symm

/-- There is a ring at every level up to the highest. -/
theorem getPeerByOrder_builtTable (hrings : (nodeTable selfId rings).HasRings) (order : ℤ) :
    ((builtTable selfId rings).getPeerByOrder store level order).map (Option.map NodeObject.node) =
      (nodeTable selfId rings).getPeerByOrder level order := by
  rw [ObjectTable.getPeerByOrder, NodeTable.getPeerByOrder, getTopLevel_builtTable]
  split
  next => rfl
  next hlevel =>
    rw [hrings.getTopLevel_lt_iff] at hlevel
    obtain ⟨nodes, hnodes⟩ := Option.ne_none_iff_exists'.mp hlevel
    rw [nodeTable, List.getElem?_map] at hnodes
    obtain ⟨ring, hring, rfl⟩ := Option.map_eq_some_iff.mp hnodes
    rw [ObjectTable.ringUnchecked, NodeTable.ringAt, builtTable, nodeTable, List.getElem?_map,
      List.getElem?_map, hring]
    by_cases horder : order < 0
    · simp only [Option.map_some, bind, Except.bind, if_pos horder]
      rfl
    · simp only [Option.map_some, bind, Except.bind, if_neg horder, SharedRing.objects,
        SharedRing.nodes, List.getElem?_map]
      cases hpeer : ring.peerList[order.toNat]? with
      | none => rfl
      | some shared =>
          have hall := SharedRing.mem_all.mpr
            (Or.inr (Or.inr (Or.inl (List.mem_of_getElem? hpeer))))
          have hnode := (hholds ring (List.mem_of_getElem? hring) shared hall).2
          exact congrArg (fun node => Except.ok (some node)) hnode

/-- A table of objects answers a query with copies of the nodes that the table of nodes
returns. -/
structure ObjectTable.Refines (table : ObjectTable) (store : Store) (nodes : NodeTable) : Prop where
  isContactNode : ∀ level, table.isContactNode level = nodes.isContactNode level
  getPeerListSize : ∀ level, table.getPeerListSize level = nodes.getPeerListSize level
  getNodeIdInVector : ∀ level id,
    table.getNodeIdInVector store level id = nodes.getNodeIdInVector level id
  getContactNodes : ∀ level, (table.getContactNodes store level).map (List.map NodeObject.node) =
    nodes.getContactNodes level
  getPeerByOrder : ∀ level order,
    (table.getPeerByOrder store level order).map (Option.map NodeObject.node) =
      nodes.getPeerByOrder level order

/-- With at least one ring, a table whose pointers point to their nodes refines the table
of these nodes. -/
theorem builtTable_refines (hrings : (nodeTable selfId rings).HasRings) :
    (builtTable selfId rings).Refines store (nodeTable selfId rings) where
  isContactNode := fun _ => isContactNode_builtTable
  getPeerListSize := fun _ => getPeerListSize_builtTable
  getNodeIdInVector := fun _ => getNodeIdInVector_builtTable hholds
  getContactNodes := fun _ => getContactNodes_builtTable hholds
  getPeerByOrder := fun _ => getPeerByOrder_builtTable hholds hrings

end Queries

/-- The table that a node forms of objects answers like the one it forms of nodes. -/
theorem BaseApp.formObjects_refines {p : Topology} {startingPortNumber : ℕ} {order : MapOrder}
    {selfId : Str} {readings : ℕ → ℤ × ℤ} {store after : Store} {rings : List SharedRing}
    (h : formObjects p startingPortNumber order selfId readings store = .ok (rings, after)) :
    ∃ tables, formStructure p startingPortNumber order selfId = .ok tables ∧
      (builtTable selfId rings).Refines after ⟨selfId, tables⟩ := by
  have hnodes : formStructure p startingPortNumber order selfId =
      .ok (rings.map SharedRing.nodes) := by
    have herased := congrArg (Except.map fun built => built.1.map SharedRing.nodes) h
    rwa [erase_formObjects] at herased
  have hbuilt := built_of_formStructure hnodes
  exact ⟨_, hnodes, builtTable_refines (formObjects_holds h) ⟨hbuilt.rings_pos, hbuilt.rings_le⟩⟩

end Hgfrr
