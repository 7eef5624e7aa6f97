import Hgfrr.Topology.ClientTables

/-!
# The nodes that a client knows

A client leaves out the ids that its list does not have, so the peers of its rings are
the listed ones among the ids of the level. Ids of a level are told apart by their
segments, as long as the numbers of the regions fit theirs.
-/

namespace Hgfrr

/-- An id of 32 characters that begins as another does. -/
structure AgreesUpTo (selfId : Str) (upTo : ℕ) (id : Str) : Prop where
  length : id.length = 32
  take : id.take upTo = selfId.take upTo

theorem AgreesUpTo.mono {selfId id : Str} {upTo upTo' : ℕ} (h : AgreesUpTo selfId upTo id)
    (hle : upTo' ≤ upTo) : AgreesUpTo selfId upTo' id where
  length := h.length
  take := by
    have htake := congrArg (List.take upTo') h.take
    rwa [List.take_take, List.take_take, min_eq_left hle] at htake

section Texts

variable (builder : TableBuilder) (hself : builder.selfId.length = 32) {upTo width regions : ℕ}
  (hwidth : 0 < width) (hle : upTo + width ≤ 32) (hfit : regions ≤ 10 ^ width)
  {contacts : List Str} (hagree : ∀ id ∈ contacts, AgreesUpTo builder.selfId (upTo + width) id)
include hself hwidth hle hfit hagree

theorem agreesUpTo_levelIds {id : Str}
    (hid : id ∈ builder.levelIds regions upTo width (List.drop (upTo + width)) contacts) :
    AgreesUpTo builder.selfId upTo id := by
  obtain ⟨i, hi, hid⟩ := List.mem_flatMap.mp hid
  obtain ⟨contact, hcontact, rfl⟩ := List.mem_map.mp hid
  have hlength := length_setw hwidth ((List.mem_range.mp hi).trans_le hfit)
  have htake : (builder.selfId.take upTo).length = upTo := by
    rw [List.length_take]
    omega
  constructor
  · rw [List.length_append, List.length_append, htake, hlength, List.length_drop,
      (hagree contact hcontact).length]
    omega
  · rw [List.append_assoc, List.take_left' htake]

omit hself hle in
/-- Regions and contact nodes are told apart by the ids that they give. -/
theorem nodup_levelIds (hnodup : contacts.Nodup) :
    (builder.levelIds regions upTo width (List.drop (upTo + width)) contacts).Nodup := by
  rw [TableBuilder.levelIds, List.nodup_flatMap]
  constructor
  · intro i _
    apply List.Nodup.map_on _ hnodup
    intro a ha b hb heq
    have hdrop := List.append_cancel_left heq
    have htake := (hagree a ha).take.trans (hagree b hb).take.symm
    rw [← List.take_append_drop (upTo + width) a, ← List.take_append_drop (upTo + width) b, hdrop,
      htake]
  · apply List.nodup_range.pairwise_of_forall_ne
    intro i hi j hj hij id hid hid'
    obtain ⟨a, _, rfl⟩ := List.mem_map.mp hid
    obtain ⟨b, _, heq⟩ := List.mem_map.mp hid'
    have hlength := length_setw hwidth ((List.mem_range.mp hi).trans_le hfit)
    have hlength' := length_setw hwidth ((List.mem_range.mp hj).trans_le hfit)
    rw [List.append_assoc, List.append_assoc, List.append_cancel_left_eq] at heq
    exact hij (setw_injective _ (List.append_inj_left heq (hlength'.trans hlength.symm)).symm)

end Texts

namespace EvalClient

variable {nodeList : NodeList} {order : MapOrder} {selfId : Str}

/-- The node of an id, if the list has its address. -/
def listed (nodeList : NodeList) (id : Str) : Option Node :=
  (nodeList.lookup id).map fun address => ⟨id, address.1, address.2⟩

/-- The ids of the listed nodes are those that the list has. -/
theorem map_id_listed (ids : List Str) :
    (ids.filterMap (listed nodeList)).map Node.id =
      ids.filter fun id => (nodeList.lookup id).isSome := by
  induction ids with
  | nil => rfl
  | cons id ids ih =>
      cases hlookup : nodeList.lookup id with
      | none => simp [listed, hlookup, ← ih]
      | some address => simp [listed, hlookup, ← ih]

theorem peerLevel_listed (nodeList : NodeList) (order : MapOrder) (selfId : Str) (peers : ℕ) :
    ((List.range peers).mapM fun i => do
      let nodeIdUntilDist ← substr selfId 0 idSingleStart
      let node ← (tableBuilder nodeList order selfId).mkNode
        (nodeIdUntilDist ++ setw idSingleLen i)
      return node.map fun node => (i, node)) = .ok ((List.range peers).map fun i =>
        (listed nodeList (selfId.take idSingleStart ++ setw idSingleLen i)).map
          fun node => (i, node)) := by
  apply mapM_eq_ok_map
  intro i _
  rw [substr_of_le (Nat.zero_le _), List.drop_zero]
  rfl

section PeerLevel

variable {peers contacts : ℕ} {ring : Ring} {next : List Node}
  (h : (tableBuilder nodeList order selfId).peerLevel peers contacts = .ok (ring, next))
include h

/-- The peers of the lowest ring are the listed ones of the district. -/
theorem peerList_peerLevel : ring.peerList =
    ((tableBuilder nodeList order selfId).peerIds peers).filterMap (listed nodeList) := by
  unfold TableBuilder.peerLevel at h
  obtain ⟨idInDist, _, h⟩ := Except.bind_eq_ok.mp h
  obtain ⟨made, hmade, h⟩ := Except.bind_eq_ok.mp h
  obtain rfl := Except.ok.inj ((peerLevel_listed nodeList order selfId peers).symm.trans hmade)
  obtain ⟨rfl, _⟩ := Prod.mk.inj (Except.ok.inj h)
  simp only [TableBuilder.peerIds, List.filterMap_map, List.map_filterMap, Function.comp_def, id,
    Option.map_map, Option.map_id']
  rfl

/-- The contact nodes of the district are the listed ones with the first numbers. -/
theorem mem_next_peerLevel {i : ℕ} (hi : i < peers) (hcontact : i < contacts) {node : Node}
    (hnode : listed nodeList (selfId.take idSingleStart ++ setw idSingleLen i) = some node) :
    node ∈ next := by
  unfold TableBuilder.peerLevel at h
  obtain ⟨idInDist, _, h⟩ := Except.bind_eq_ok.mp h
  obtain ⟨made, hmade, h⟩ := Except.bind_eq_ok.mp h
  obtain rfl := Except.ok.inj ((peerLevel_listed nodeList order selfId peers).symm.trans hmade)
  obtain ⟨_, rfl⟩ := Prod.mk.inj (Except.ok.inj h)
  refine List.mem_map.mpr ⟨(i, node), List.mem_filter.mpr ⟨?_, by simpa using hcontact⟩, rfl⟩
  refine List.mem_filterMap.mpr ⟨some (i, node), ?_, rfl⟩
  exact List.mem_map.mpr ⟨i, List.mem_range.mpr hi, by rw [hnode]; rfl⟩

end PeerLevel

theorem peerList_contactLevel {ringLevel regions limit upTo width : ℕ}
    {suffix : Str → Except Fault Str} {rest : Str → Str} {list before next : List Node}
    {ring : Ring}
    (hsuffix : ∀ node ∈ list, suffix node.id = .ok (rest node.id))
    (h : (tableBuilder nodeList order selfId).contactLevel ringLevel regions limit upTo width suffix
      list before = .ok (ring, next)) :
    ring.peerList = ((tableBuilder nodeList order selfId).levelIds regions upTo width rest
      (list.map Node.id)).filterMap (listed nodeList) := by
  have hrow (i : ℕ) : (list.mapM fun contactNode => do
      let rest ← suffix contactNode.id
      (tableBuilder nodeList order selfId).mkNode (selfId.take upTo ++ setw width i ++ rest)) =
        .ok (list.map fun contactNode =>
          listed nodeList (selfId.take upTo ++ setw width i ++ rest contactNode.id)) := by
    apply mapM_eq_ok_map
    intro contactNode hcontact
    rw [hsuffix contactNode hcontact]
    rfl
  unfold TableBuilder.contactLevel at h
  obtain ⟨nodeIdUntil, huntil, h⟩ := Except.bind_eq_ok.mp h
  obtain ⟨made, hok, h⟩ := Except.bind_eq_ok.mp h
  rw [substr_of_le (Nat.zero_le _), List.drop_zero] at huntil
  obtain rfl := Except.ok.inj huntil
  obtain rfl := Except.ok.inj ((mapM_eq_ok_map fun i _ => hrow i).symm.trans hok)
  obtain ⟨rfl, _⟩ := Prod.mk.inj (Except.ok.inj h)
  rw [← List.flatMap_def, List.filterMap_flatMap, TableBuilder.levelIds, List.filterMap_flatMap]
  simp only [List.filterMap_map, Function.comp_def]
  rfl

open BaseApp (LongId) in
/-- Every long id has tables at a client. -/
theorem exists_createHgfrTable_of_long (p : Topology) (nodeList : NodeList) (order : MapOrder)
    (hself : idSingleStart ≤ selfId.length) :
    ∃ rings, createHgfrTable p nodeList order selfId = .ok rings := by
  obtain ⟨ring, next, hpeer⟩ : ∃ ring next, (tableBuilder nodeList order selfId).peerLevel
      p.numNodesInDist p.numCnodesInDist = .ok (ring, next) :=
    ⟨_, _, Except.bind_eq_ok.mpr ⟨_, substr_of_le hself, Except.bind_eq_ok.mpr
      ⟨_, peerLevel_listed nodeList order selfId _, rfl⟩⟩⟩
  obtain ⟨_, hpeers, hnext⟩ :=
    TableBuilder.mem_peerLevel (tableBuilder_namesNodes nodeList order selfId) hpeer
  have hlong : ∀ node ∈ next, LongId node := by
    intro node hnode
    obtain ⟨i, _, hid⟩ := hpeers node (hnext node hnode)
    have htake : (selfId.take idSingleStart).length = idSingleStart := by simpa using hself
    simp only [LongId, hid, List.length_append, tableBuilder, htake]
    omega
  obtain ⟨rings, hrings⟩ := exists_createHgfrTable p hself hpeer hlong
  exact ⟨ring :: rings, hrings⟩

end EvalClient

end Hgfrr
