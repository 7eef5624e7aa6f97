import Hgfrr.Objects.Copies
import Hgfrr.Topology.ListedNodes

/-!
# One object for all places

A client puts the pointer of a node at all its places, and the ids of a ring are told
apart by their segments. Only the map of the next contact nodes is not emptied after the
ring of cities: the ring of states finds its own contact nodes there, as objects of the
ring below.
-/

namespace Hgfrr

namespace EvalClient

/-- The regions of the level above, as a client counts them. -/
def regionsOf (p : Topology) : ℕ → ℕ
  | 1 => p.numNodesInState / p.numCnodesInDist
  | level => p.regionCount (level + 1)

/-- Whether the block of the level above hands its contact nodes on. -/
def exchanges : ℕ → Bool
  | 1 | 4 => false
  | _ => true

/-- Every number of a client's rings fits its segment. -/
structure NumbersFit (p : Topology) : Prop where
  peers : p.numNodesInDist ≤ 10 ^ idSingleLen
  regions : ∀ level < 5, regionsOf p level ≤ 10 ^ idLen (level + 1)

section Run

variable (p : Topology) (nodeList : NodeList) (order : MapOrder) (selfId : Str)
  (readings : ℕ → ℤ × ℤ) (store : Store)

def levelObjects (level : ℕ) : ObjectLevel :=
  (objectBuilder nodeList order selfId readings).contactObjects (level + 1) (regionsOf p level)
    (p.contactLimit (level + 1)) (idStart (level + 1)) (idLen (level + 1)) (suffixOf level)

/-- The block of the level above. -/
def blockAt (level : ℕ) (state : ObjectState) : Except Fault ObjectState :=
  objectBlock (objectBuilder nodeList order selfId readings) (exchanges level)
    (levelObjects p nodeList order selfId readings level) state

/-- The states between the blocks. -/
inductive Reached : ℕ → ObjectState → Prop
  | start {ring : SharedRing} {list : List SharedNode} {after : Store}
      (h : (objectBuilder nodeList order selfId readings).peerObjects p.numNodesInDist
        p.numCnodesInDist store = .ok (ring, list, after)) : Reached 0 ⟨[ring], list, [], after⟩
  | block {level : ℕ} {state state' : ObjectState} (hlevel : level < 5)
      (hblock : blockAt p nodeList order selfId readings level state = .ok state') :
      Reached level state → Reached (level + 1) state'

end Run

variable {p : Topology} {nodeList : NodeList} {order : MapOrder} {selfId : Str}
  {readings : ℕ → ℤ × ℤ} {store after : Store} {rings : List SharedRing} {level : ℕ}
  {state state' : ObjectState}

/-- The tables of a client are those of a state, which is one above the ring of states if the
country has nodes. -/
theorem reached_of_createObjects
    (h : createObjects p nodeList order selfId readings store = .ok (rings, after)) :
    ∃ level state, Reached p nodeList order selfId readings store level state ∧
      state.tables = rings ∧ state.store = after ∧ (p.numNodesInCountry ≠ 0 → 3 ≤ level) := by
  obtain ⟨⟨ring, list, first⟩, hring, h⟩ := Except.bind_eq_ok.mp h
  obtain ⟨dist, hdist, h⟩ := Except.bind_eq_ok.mp h
  obtain ⟨city, hcity, h⟩ := Except.bind_eq_ok.mp h
  have htwo : Reached p nodeList order selfId readings store 2 city :=
    .block (by decide) hcity (.block (by decide) hdist (.start hring))
  split at h
  next hzero =>
    obtain ⟨rfl, rfl⟩ := Prod.mk.inj (Except.ok.inj h)
    exact ⟨2, city, htwo, rfl, rfl, fun hcountry => absurd hzero hcountry⟩
  next =>
    obtain ⟨state, hstate, h⟩ := Except.bind_eq_ok.mp h
    have hthree : Reached p nodeList order selfId readings store 3 state :=
      .block (by decide) hstate htwo
    split at h
    next =>
      obtain ⟨rfl, rfl⟩ := Prod.mk.inj (Except.ok.inj h)
      exact ⟨3, state, hthree, rfl, rfl, fun _ => le_rfl⟩
    next =>
      obtain ⟨country, hcountry, h⟩ := Except.bind_eq_ok.mp h
      obtain ⟨continent, hcontinent, h⟩ := Except.bind_eq_ok.mp h
      obtain ⟨rfl, rfl⟩ := Prod.mk.inj (Except.ok.inj h)
      exact ⟨5, continent, .block (by decide) hcontinent (.block (by decide) hcountry hthree), rfl,
        rfl, fun _ => by decide⟩

/-- A block leaves things as they are, or makes a ring. -/
theorem blockAt_cases (h : blockAt p nodeList order selfId readings level state = .ok state') :
    (selfId ∉ state.contactNodes.map SharedNode.id ∧ state' = state) ∨
      selfId ∈ state.contactNodes.map SharedNode.id ∧ ∃ ring next after,
        levelObjects p nodeList order selfId readings level state.contactNodes
          state.contactNodesNext state.store = .ok (ring, next, after) ∧
        state' = if exchanges level then
            ⟨state.tables ++ [ring], SharedNode.iterate order next, [], after⟩
          else ⟨state.tables ++ [ring], state.contactNodes, next, after⟩ := by
  unfold blockAt objectBlock at h
  by_cases hamong : selfId ∈ state.contactNodes.map SharedNode.id
  · have htrue : (objectBuilder nodeList order selfId readings).isAmongShared
        state.contactNodes = true := decide_eq_true hamong
    rw [if_pos htrue] at h
    obtain ⟨⟨ring, next, after⟩, hring, h⟩ := Except.bind_eq_ok.mp h
    refine Or.inr ⟨hamong, ring, next, after, hring, ?_⟩
    dsimp only at h
    split at h
    next hexchange =>
      obtain rfl := Except.ok.inj h
      rw [if_pos hexchange]
      rfl
    next hexchange =>
      obtain rfl := Except.ok.inj h
      rw [if_neg hexchange]
  · have hfalse : ¬(objectBuilder nodeList order selfId readings).isAmongShared
        state.contactNodes = true := fun htrue => hamong (of_decide_eq_true htrue)
    rw [if_neg hfalse] at h
    exact Or.inl ⟨hamong, (Except.ok.inj h).symm⟩

/-! ## What a block makes -/

theorem putFor_iff {objects : List SharedNode} {shared : SharedNode} :
    (objectBuilder nodeList order selfId readings).PutFor objects shared ↔ shared ∈ objects := by
  constructor
  · rintro ⟨place, made, hmade, rfl⟩
    exact hmade
  · exact fun hmem => ⟨.peerList, shared, hmem, rfl⟩

/-- A ring of listed nodes, each of which is one new object. -/
structure MadeLevel (ids : List Str) (nodeList : NodeList) (before : List SharedNode)
    (store : Store) (ring : SharedRing) (next : List SharedNode) (after : Store) : Prop where
  extends_store : after.Extends store
  map_id_peerList : ring.peerList.map SharedNode.id =
    ids.filter fun id => (nodeList.lookup id).isSome
  new_peers : ∀ shared ∈ ring.peerList, store.size ≤ shared.ref
  mem_next : ∀ shared ∈ next, shared ∈ before ∨ shared ∈ ring.peerList
  mem_all : ∀ shared ∈ ring.all, shared ∈ next ∨ shared ∈ ring.peerList
  nodup_next : ids.Nodup → (before.map SharedNode.id).Nodup → (next.map SharedNode.id).Nodup
  holds_next : store.Holds before → after.Holds next
  holds_all : store.Holds before → after.Holds ring.all

/-- The objects of a client's ring are its peers. -/
theorem madeLevel_of_madeOf {ids : List Str} {nodes : List Node} {before next : List SharedNode}
    {ring : SharedRing}
    (hmade : (objectBuilder nodeList order selfId readings).MadeOf nodes before store ring next
      after)
    (hpeers : ring.nodes.peerList = ids.filterMap (listed nodeList)) :
    MadeLevel ids nodeList before store ring next after := by
  have hobjects : ((objectBuilder nodeList order selfId readings).makeNodes store nodes).1 =
      ring.peerList := by
    rw [hmade.peerList_eq]
    exact (List.map_id _).symm
  have hids : ring.peerList.map SharedNode.id =
      ids.filter fun id => (nodeList.lookup id).isSome := by
    rw [← map_id_listed, ← hpeers, ← SharedNode.map_id_node]
    rfl
  refine ⟨hmade.extends_store, hids, ?_, ?_, ?_, ?_, hmade.holds_next, hmade.holds_all⟩
  · intro shared hshared
    rw [← hobjects] at hshared
    exact ((ObjectBuilder.makeNodes_spec store nodes).2 shared hshared).1
  · intro shared hshared
    have hmem := hmade.mem_next shared hshared
    rwa [hobjects, putFor_iff] at hmem
  · intro shared hshared
    have hmem := hmade.mem_all shared hshared
    rwa [hobjects, putFor_iff] at hmem
  · intro hnodup
    apply hmade.nodup_next
    rw [← hmade.map_node_peerList, SharedNode.map_id_node, hids]
    exact hnodup.filter _

theorem madeLevel_of_peerObjects {peers contacts : ℕ} {ring : SharedRing} {list : List SharedNode}
    (h : (objectBuilder nodeList order selfId readings).peerObjects peers contacts store =
      .ok (ring, list, after)) :
    MadeLevel ((tableBuilder nodeList order selfId).peerIds peers) nodeList [] store ring list
      after := by
  obtain ⟨nodes, hmade⟩ := ObjectBuilder.peerObjects_madeOf h
  have herase :=
    (objectBuilder nodeList order selfId readings).erase_peerObjects peers contacts store
  rw [h] at herase
  exact madeLevel_of_madeOf hmade (peerList_peerLevel herase.symm)

/-- The ids of the level above contact nodes. -/
def idsAbove (p : Topology) (selfId : Str) (level : ℕ) (contacts : List Str) : List Str :=
  (List.range (regionsOf p level)).flatMap fun i => contacts.map fun contact =>
    selfId.take (idStart (level + 1)) ++ setw (idLen (level + 1)) i ++ contact.drop (idStart level)

theorem madeLevel_of_levelObjects {list before next : List SharedNode} {ring : SharedRing}
    (hlist : ∀ shared ∈ list, shared.id.length = 32)
    (h : levelObjects p nodeList order selfId readings level list before store =
      .ok (ring, next, after)) :
    MadeLevel (idsAbove p selfId level (list.map SharedNode.id)) nodeList before store ring next
      after := by
  obtain ⟨nodes, hmade⟩ := ObjectBuilder.contactObjects_madeOf h
  have herase := (objectBuilder nodeList order selfId readings).erase_contactObjects (level + 1)
    (regionsOf p level) (p.contactLimit (level + 1)) (idStart (level + 1)) (idLen (level + 1))
    (suffixOf level) list before store
  rw [show (objectBuilder nodeList order selfId readings).contactObjects _ _ _ _ _ _ list before
    store = _ from h] at herase
  have hsuffix : ∀ node ∈ list.map SharedNode.node,
      suffixOf level node.id = .ok (node.id.drop (idStart level)) := by
    intro node hnode
    obtain ⟨shared, hshared, rfl⟩ := List.mem_map.mp hnode
    exact suffixOf_of_length (hlist shared hshared)
  have hpeers := peerList_contactLevel hsuffix herase.symm
  rw [SharedNode.map_id_node] at hpeers
  exact madeLevel_of_madeOf hmade hpeers

/-! ## Rings with one object for a node -/

section Level

variable (hself : selfId.length = 32) (hlevel : level < 5)
  (hfit : regionsOf p level ≤ 10 ^ idLen (level + 1)) {contacts : List Str}
  (hagree : ∀ id ∈ contacts, AgreesUpTo selfId (idStart level) id)
include hself hlevel hfit hagree

theorem agreesUpTo_idsAbove {id : Str} (hid : id ∈ idsAbove p selfId level contacts) :
    AgreesUpTo selfId (idStart (level + 1)) id := by
  have hstart := idStart_add_idLen (l := level) (by omega)
  have hle : idStart level ≤ 32 := (idStart_le level).trans (by decide)
  rw [idsAbove, ← hstart] at hid
  rw [← hstart] at hagree
  exact agreesUpTo_levelIds (tableBuilder [] insertionOrder selfId) hself
    (idLen_pos (by omega)) (by omega) hfit hagree hid

omit hself in
theorem nodup_idsAbove (hnodup : contacts.Nodup) : (idsAbove p selfId level contacts).Nodup := by
  have hstart := idStart_add_idLen (l := level) (by omega)
  rw [idsAbove, ← hstart]
  rw [← hstart] at hagree
  exact nodup_levelIds (tableBuilder [] insertionOrder selfId) (idLen_pos (by omega))
    hfit hagree hnodup

end Level

/-- Peers with ids of their own, and contact nodes from elsewhere only if there are no peers. -/
theorem MadeLevel.oneEach {ids : List Str} {before next : List SharedNode} {ring : SharedRing}
    (h : MadeLevel ids nodeList before store ring next after) (hids : ids.Nodup)
    (hbefore : (before.map SharedNode.id).Nodup) (hone : before = [] ∨ ids = []) :
    ring.OneEach := by
  have hpeers : (ring.peerList.map SharedNode.id).Nodup := by
    rw [h.map_id_peerList]
    exact hids.filter _
  obtain ⟨all, hnodup, hall⟩ : ∃ all : List SharedNode, (all.map SharedNode.id).Nodup ∧
      ∀ shared ∈ ring.all, shared ∈ all := by
    rcases hone with rfl | rfl
    · refine ⟨ring.peerList, hpeers, fun shared hshared => ?_⟩
      rcases h.mem_all shared hshared with hnext | hpeer
      · exact (h.mem_next shared hnext).resolve_left List.not_mem_nil
      · exact hpeer
    · have hnone : ring.peerList = [] := List.map_eq_nil_iff.mp h.map_id_peerList
      refine ⟨next, h.nodup_next hids hbefore, fun shared hshared => ?_⟩
      apply (h.mem_all shared hshared).resolve_right
      rw [hnone]
      exact List.not_mem_nil
  intro shared hshared shared' hshared' heq
  rw [List.inj_on_of_nodup_map hnodup (hall shared hshared) (hall shared' hshared') heq]

/-- What the blocks keep: one object for a node in each ring, and contact nodes that begin as
the own id does. -/
structure Sound (selfId : Str) (level : ℕ) (state : ObjectState) : Prop where
  rings : ∀ ring ∈ state.tables, ring.OneEach
  agree : ∀ shared ∈ state.contactNodes, AgreesUpTo selfId (idStart level) shared.id
  nodup : (state.contactNodes.map SharedNode.id).Nodup
  agree_next : ∀ shared ∈ state.contactNodesNext, AgreesUpTo selfId (idStart level) shared.id
  nodup_next : (state.contactNodesNext.map SharedNode.id).Nodup

theorem Sound.agree_ids (h : Sound selfId level state) :
    ∀ id ∈ state.contactNodes.map SharedNode.id, AgreesUpTo selfId (idStart level) id := by
  intro id hid
  obtain ⟨shared, hshared, rfl⟩ := List.mem_map.mp hid
  exact h.agree shared hshared

theorem sound_start (hself : selfId.length = 32) (hfit : p.numNodesInDist ≤ 10 ^ idSingleLen)
    {ring : SharedRing} {list : List SharedNode}
    (h : (objectBuilder nodeList order selfId readings).peerObjects p.numNodesInDist
      p.numCnodesInDist store = .ok (ring, list, after)) :
    Sound selfId 0 ⟨[ring], list, [], after⟩ := by
  have hmade := madeLevel_of_peerObjects h
  have hids := TableBuilder.nodup_peerIds (tableBuilder nodeList order selfId) p.numNodesInDist
  refine ⟨?_, ?_, hmade.nodup_next hids List.nodup_nil, by simp, List.nodup_nil⟩
  · intro other hother
    rw [List.mem_singleton.mp hother]
    exact hmade.oneEach hids List.nodup_nil (Or.inl rfl)
  · intro shared hshared
    have hpeer := (hmade.mem_next shared hshared).resolve_left List.not_mem_nil
    have hid := List.mem_map_of_mem (f := SharedNode.id) hpeer
    rw [hmade.map_id_peerList] at hid
    obtain ⟨i, hi, heq⟩ := List.mem_map.mp (List.mem_of_mem_filter hid)
    have hlength : (setw idSingleLen i).length = idSingleLen :=
      length_setw (by decide) ((List.mem_range.mp hi).trans_le hfit)
    have htake : (selfId.take idSingleStart).length = idSingleStart := by
      rw [List.length_take, hself]
      rfl
    rw [← heq]
    constructor
    · rw [List.length_append, hlength]
      exact congrArg (· + idSingleLen) htake
    · exact List.take_left' htake

/-- A block keeps this, if nothing is left over from the level below or nothing is made. -/
theorem Sound.block (h : Sound selfId level state) (hself : selfId.length = 32)
    (hlevel : level < 5) (hfit : regionsOf p level ≤ 10 ^ idLen (level + 1))
    (hnext : selfId ∈ state.contactNodes.map SharedNode.id →
      state.contactNodesNext = [] ∨ regionsOf p level = 0)
    (hblock : blockAt p nodeList order selfId readings level state = .ok state') :
    Sound selfId (level + 1) state' := by
  have hle : idStart (level + 1) ≤ idStart level := by
    have hstart := idStart_add_idLen (l := level) (by omega)
    omega
  rcases blockAt_cases hblock with ⟨_, rfl⟩ | ⟨hamong, ring, next, after, hring, rfl⟩
  · exact ⟨h.rings, fun shared hshared => (h.agree shared hshared).mono hle, h.nodup,
      fun shared hshared => (h.agree_next shared hshared).mono hle, h.nodup_next⟩
  · have hmade := madeLevel_of_levelObjects (fun shared hshared => (h.agree shared hshared).length)
      hring
    have hids := nodup_idsAbove hlevel hfit h.agree_ids h.nodup
    have hone : state.contactNodesNext = [] ∨
        idsAbove p selfId level (state.contactNodes.map SharedNode.id) = [] := by
      apply (hnext hamong).imp_right
      intro hzero
      rw [idsAbove, hzero]
      rfl
    have hrings : ∀ other ∈ state.tables ++ [ring], other.OneEach := by
      intro other hother
      rcases List.mem_append.mp hother with hold | hnew
      · exact h.rings other hold
      · rw [List.mem_singleton.mp hnew]
        exact hmade.oneEach hids h.nodup_next hone
    have hpeers : ∀ shared ∈ ring.peerList, AgreesUpTo selfId (idStart (level + 1)) shared.id := by
      intro shared hshared
      have hid := List.mem_map_of_mem (f := SharedNode.id) hshared
      rw [hmade.map_id_peerList] at hid
      exact agreesUpTo_idsAbove hself hlevel hfit h.agree_ids (List.mem_of_mem_filter hid)
    have hagree_next : ∀ shared ∈ next, AgreesUpTo selfId (idStart (level + 1)) shared.id := by
      intro shared hshared
      rcases hmade.mem_next shared hshared with hold | hpeer
      · exact (h.agree_next shared hold).mono hle
      · exact hpeers shared hpeer
    have hnodup_next := hmade.nodup_next hids h.nodup_next
    split
    next =>
      exact ⟨hrings, fun shared hshared =>
        hagree_next shared (SharedNode.mem_of_mem_iterate hshared),
        SharedNode.nodup_ids_iterate hnodup_next, by simp, List.nodup_nil⟩
    next =>
      exact ⟨hrings, fun shared hshared => (h.agree shared hshared).mono hle, h.nodup, hagree_next,
        hnodup_next⟩

/-! ## What is reached -/

/-- The pointers of the tables and of the next contact nodes point to their nodes. -/
structure Held (state : ObjectState) : Prop where
  tables : ∀ ring ∈ state.tables, state.store.Holds ring.all
  next : state.store.Holds state.contactNodesNext

theorem held_of_reached (h : Reached p nodeList order selfId readings store level state) :
    Held state := by
  have hnone : ∀ store : Store, store.Holds [] := fun _ _ hmem => absurd hmem List.not_mem_nil
  induction h with
  | start h =>
      obtain ⟨nodes, hmade⟩ := ObjectBuilder.peerObjects_madeOf h
      refine ⟨fun ring hring => ?_, hnone _⟩
      rw [List.mem_singleton.mp hring]
      exact hmade.holds_all (hnone _)
  | @block level state state' hlevel hblock _ ih =>
      rcases blockAt_cases hblock with ⟨_, rfl⟩ | ⟨_, ring, next, after, hring, rfl⟩
      · exact ih
      · obtain ⟨nodes, hmade⟩ := ObjectBuilder.contactObjects_madeOf hring
        have htables : ∀ other ∈ state.tables ++ [ring], after.Holds other.all := by
          intro other hother
          rcases List.mem_append.mp hother with hold | hnew
          · exact (ih.tables other hold).mono hmade.extends_store
          · rw [List.mem_singleton.mp hnew]
            exact hmade.holds_all ih.next
        split
        next => exact ⟨htables, hnone _⟩
        next => exact ⟨htables, hmade.holds_next ih.next⟩

/-- The map of the next contact nodes is empty, but after the blocks that hand nothing on. -/
theorem next_eq_nil_of_reached (h : Reached p nodeList order selfId readings store level state)
    (hamong : selfId ∈ state.contactNodes.map SharedNode.id) (hlevel : level ≠ 2 ∧ level ≠ 5) :
    state.contactNodesNext = [] := by
  cases h with
  | start h => rfl
  | @block below state _ hbelow hblock _ =>
      rcases blockAt_cases hblock with ⟨hnot, rfl⟩ | ⟨_, ring, next, after, _, rfl⟩
      · exact absurd hamong hnot
      · have hexchange : exchanges below = true := by
          obtain ⟨hone, hfour⟩ : below ≠ 1 ∧ below ≠ 4 := by omega
          interval_cases below <;> first | rfl | contradiction
        rw [if_pos hexchange]

theorem reached_succ (h : Reached p nodeList order selfId readings store (level + 1) state) :
    ∃ below, Reached p nodeList order selfId readings store level below ∧
      blockAt p nodeList order selfId readings level below = .ok state := by
  cases h with
  | block _ hblock h => exact ⟨_, h, hblock⟩

/-- Blocks only add to the tables. -/
theorem exists_reached_of_le (h : Reached p nodeList order selfId readings store level state)
    {below : ℕ} (hle : below ≤ level) :
    ∃ earlier, Reached p nodeList order selfId readings store below earlier ∧
      ∀ ring ∈ earlier.tables, ring ∈ state.tables := by
  induction h with
  | start h =>
      obtain rfl := Nat.le_zero.mp hle
      exact ⟨_, .start h, fun _ => id⟩
  | @block level state state' hlevel hblock h ih =>
      rcases hle.eq_or_lt with rfl | hlt
      · exact ⟨state', .block hlevel hblock h, fun _ => id⟩
      · obtain ⟨earlier, hearlier, htables⟩ := ih (Nat.le_of_lt_succ hlt)
        refine ⟨earlier, hearlier, fun ring hring => ?_⟩
        rcases blockAt_cases hblock with ⟨_, rfl⟩ | ⟨_, other, next, after, _, rfl⟩
        · exact htables ring hring
        · split
          next => exact List.mem_append_left _ (htables ring hring)
          next => exact List.mem_append_left _ (htables ring hring)

/-- The blocks keep one object for a node, if this is so for the ring of states. -/
theorem sound_of_reached (hself : selfId.length = 32) (hfit : NumbersFit p)
    (hstates : 2 < level → ∀ state, Reached p nodeList order selfId readings store 2 state →
      selfId ∈ state.contactNodes.map SharedNode.id →
        state.contactNodesNext = [] ∨ regionsOf p 2 = 0)
    (h : Reached p nodeList order selfId readings store level state) :
    Sound selfId level state := by
  induction h with
  | start h => exact sound_start hself hfit.peers h
  | @block level state state' hlevel hblock h ih =>
      have hsound := ih fun hlt => hstates (hlt.trans level.lt_succ_self)
      refine hsound.block hself hlevel (hfit.regions level hlevel) (fun hamong => ?_) hblock
      by_cases htwo : level = 2
      · subst htwo
        exact hstates (by decide) state h hamong
      · exact Or.inl (next_eq_nil_of_reached h hamong ⟨htwo, by omega⟩)

/-- What keeps the contact nodes of two rings apart: there are no nodes, or no regions on the
way up to the ring of states. -/
def KeepsApart (p : Topology) : Prop :=
  p.numNodesInDist = 0 ∨ p.numDistsInCity = 0 ∨ p.numNodesInState / p.numCnodesInDist = 0 ∨
    p.numStatesInCountry = 0

/-- Without ids nothing is made. -/
theorem MadeLevel.next_eq_nil {ids : List Str} {next : List SharedNode} {ring : SharedRing}
    (h : MadeLevel ids nodeList [] store ring next after) (hids : ids = []) : next = [] := by
  have hpeers := h.map_id_peerList
  rw [hids, List.filter_nil] at hpeers
  apply List.eq_nil_iff_forall_not_mem.mpr
  intro shared hshared
  have hpeer := (h.mem_next shared hshared).resolve_left List.not_mem_nil
  rw [List.map_eq_nil_iff.mp hpeers] at hpeer
  exact List.not_mem_nil hpeer

/-- Without regions there is no way up. -/
theorem next_eq_nil {list next : List SharedNode} {ring : SharedRing}
    (hlist : ∀ shared ∈ list, shared.id.length = 32) (hzero : regionsOf p level = 0)
    (h : levelObjects p nodeList order selfId readings level list [] store =
      .ok (ring, next, after)) : next = [] := by
  apply (madeLevel_of_levelObjects hlist h).next_eq_nil
  rw [idsAbove, hzero]
  rfl

/-- An empty district has no contact nodes. -/
theorem contactNodes_eq_nil (hzero : p.numNodesInDist = 0)
    (h : Reached p nodeList order selfId readings store 0 state) : state.contactNodes = [] := by
  cases h with
  | start h =>
      apply (madeLevel_of_peerObjects h).next_eq_nil
      rw [hzero]
      rfl

theorem states_of_keepsApart (hself : selfId.length = 32) (hfit : NumbersFit p)
    (hapart : KeepsApart p) (h : Reached p nodeList order selfId readings store 2 state)
    (hamong : selfId ∈ state.contactNodes.map SharedNode.id) :
    state.contactNodesNext = [] ∨ regionsOf p 2 = 0 := by
  obtain ⟨dist, hdist, hcity⟩ := reached_succ h
  obtain ⟨peer, hpeer, hblock⟩ := reached_succ hdist
  have hlength : ∀ {level state}, level < 2 →
      Reached p nodeList order selfId readings store level state →
        ∀ shared ∈ state.contactNodes, shared.id.length = 32 := by
    intro level state hlevel hreached shared hshared
    exact ((sound_of_reached hself hfit (fun hlt => absurd hlt (by omega)) hreached).agree shared
      hshared).length
  rcases blockAt_cases hcity with ⟨hnot, rfl⟩ | ⟨hamongDist, ring, next, after, hring, rfl⟩
  · exact absurd hamong hnot
  rw [next_eq_nil_of_reached hdist hamongDist (by decide)] at hring
  rcases blockAt_cases hblock with ⟨hnot, rfl⟩ | ⟨hamongPeer, ring', next', after', hring', rfl⟩
  · exact absurd hamongDist hnot
  rw [next_eq_nil_of_reached hpeer hamongPeer (by decide)] at hring'
  rcases hapart with hpeers | hdists | hcities | hcountry
  · rw [contactNodes_eq_nil hpeers hpeer] at hamongPeer
    exact absurd hamongPeer List.not_mem_nil
  · have hzero : regionsOf p 0 = 0 := hdists
    have hnone := next_eq_nil (hlength (by decide) hpeer) hzero hring'
    obtain ⟨shared, hshared, _⟩ := List.mem_map.mp hamongDist
    have hmem := SharedNode.mem_of_mem_iterate hshared
    rw [hnone] at hmem
    exact absurd hmem List.not_mem_nil
  · have hzero : regionsOf p 1 = 0 := hcities
    exact Or.inl (next_eq_nil (hlength (by decide) hdist) hzero hring)
  · exact Or.inr hcountry

/-- A client whose rings are kept apart has one object for a node in each of them. -/
theorem oneNodeOneObject_of_keepsApart (hself : selfId.length = 32) (hfit : NumbersFit p)
    (hapart : KeepsApart p)
    (h : createObjects p nodeList order selfId readings store = .ok (rings, after)) :
    (builtTable selfId rings).OneNodeOneObject after := by
  obtain ⟨level, state, hreached, rfl, rfl, _⟩ := reached_of_createObjects h
  have hsound := sound_of_reached hself hfit (fun _ state => states_of_keepsApart hself hfit hapart)
    hreached
  exact (builtTable_oneNodeOneObject_iff (held_of_reached hreached).tables).mpr hsound.rings

/-! ## The node whose id has zeros only -/

/-- The id of 32 zeros. -/
def zeros : Str := List.replicate 32 '0'

/-- The list that has this id only. -/
def zerosList : NodeList := [(zeros, "127.0.0.1".toList, 7000)]

theorem lookup_zerosList {id : Str} : (zerosList.lookup id).isSome ↔ id = zeros := by
  simp [zerosList]

/-- Its district, city and so on have the number zero. -/
theorem zeros_mem_idsAbove (hlevel : level < 5) (hregions : 0 < regionsOf p level)
    {contacts : List Str} (hmem : zeros ∈ contacts) : zeros ∈ idsAbove p zeros level contacts := by
  have hstart := idStart_add_idLen (l := level) (by omega)
  have hle : idStart level ≤ 32 := (idStart_le level).trans (by decide)
  refine List.mem_flatMap.mpr ⟨0, List.mem_range.mpr hregions, List.mem_map.mpr ⟨zeros, hmem, ?_⟩⟩
  rw [setw, Decimal.padded_zero (idLen_pos (by omega)), zeros, List.take_replicate,
    List.drop_replicate, List.replicate_append_replicate, List.replicate_append_replicate]
  congr 1
  omega

section Zeros

variable {list before next : List SharedNode} {ring : SharedRing} (hlevel : level < 5)
  (hregions : 0 < regionsOf p level) (hlist : ∀ shared ∈ list, shared.id.length = 32)
  (hmem : zeros ∈ list.map SharedNode.id)
include hlevel hregions hlist hmem

/-- The node is a peer above any ring whose contact node it is. -/
theorem zeros_mem_peerList
    (h : levelObjects p zerosList order zeros readings level list before store =
      .ok (ring, next, after)) : zeros ∈ ring.peerList.map SharedNode.id := by
  rw [(madeLevel_of_levelObjects hlist h).map_id_peerList]
  exact List.mem_filter.mpr ⟨zeros_mem_idsAbove hlevel hregions hmem, lookup_zerosList.mpr rfl⟩

/-- It is the only one, and so among the first. -/
theorem zeros_mem_next (hlimit : 0 < p.contactLimit (level + 1))
    (h : levelObjects p zerosList order zeros readings level list [] store =
      .ok (ring, next, after)) : zeros ∈ next.map SharedNode.id := by
  have hpeers := zeros_mem_peerList hlevel hregions hlist hmem h
  have hall : ∀ id ∈ ring.peerList.map SharedNode.id, id = zeros := by
    intro id hid
    rw [(madeLevel_of_levelObjects hlist h).map_id_peerList] at hid
    exact lookup_zerosList.mp (List.mem_filter.mp hid).2
  have herase := (objectBuilder zerosList order zeros readings).erase_contactObjects (level + 1)
    (regionsOf p level) (p.contactLimit (level + 1)) (idStart (level + 1)) (idLen (level + 1))
    (suffixOf level) list [] store
  rw [show (objectBuilder zerosList order zeros readings).contactObjects _ _ _ _ _ _ list []
    store = _ from h] at herase
  have hfirst := (TableBuilder.contactLevel_firstPeers herase.symm).mem_next zeros
  rw [SharedNode.map_id_node] at hfirst
  rw [hfirst, Ring.peerIds]
  change zeros ∈ ((ring.peerList.map SharedNode.node).map Node.id).take _
  rw [SharedNode.map_id_node]
  cases hids : ring.peerList.map SharedNode.id with
  | nil => exact absurd (hids ▸ hpeers) List.not_mem_nil
  | cons id ids =>
      obtain ⟨limit, hlimit⟩ := Nat.exists_eq_succ_of_ne_zero hlimit.ne'
      rw [hlimit, List.take_succ_cons, hall id (hids ▸ List.mem_cons_self)]
      exact List.mem_cons_self

/-- A contact node left over from the level below is another object than the new peer. -/
theorem not_oneEach_of_leftOver (hbefore : zeros ∈ before.map SharedNode.id)
    (hholds : store.Holds before) (hnodup : (next.map SharedNode.id).Nodup)
    (h : levelObjects p zerosList order zeros readings level list before store =
      .ok (ring, next, after)) : ¬ring.OneEach := by
  intro hone
  obtain ⟨hcontacts, hkept⟩ := ObjectBuilder.contactObjects_next h
  obtain ⟨left, hleft, hid⟩ := List.mem_map.mp hbefore
  obtain ⟨peer, hpeer, hid'⟩ := List.mem_map.mp
    (zeros_mem_peerList hlevel hregions hlist hmem h)
  have hleftAll : left ∈ ring.all := by
    rw [SharedRing.mem_all, hcontacts, SharedNode.mem_iterate hnodup]
    exact Or.inl (hkept left hleft)
  have hpeerAll : peer ∈ ring.all := SharedRing.mem_all.mpr (Or.inr (Or.inr (Or.inl hpeer)))
  have hrefs := hone left hleftAll peer hpeerAll (hid.trans hid'.symm)
  have hold := (hholds left hleft).1
  have hnew := (madeLevel_of_levelObjects hlist h).new_peers peer hpeer
  omega

end Zeros

theorem zeros_mem_contactNodes (hpos : 0 < p.numNodesInDist)
    (h : Reached p zerosList order zeros readings store 0 state) :
    zeros ∈ state.contactNodes.map SharedNode.id := by
  cases h with
  | @start ring list after h =>
      have herase :=
        (objectBuilder zerosList order zeros readings).erase_peerObjects p.numNodesInDist
          p.numCnodesInDist store
      rw [h] at herase
      have hlisted : listed zerosList (zeros.take idSingleStart ++ setw idSingleLen 0) =
          some ⟨zeros, "127.0.0.1".toList, 7000⟩ := rfl
      have hmem := mem_next_peerLevel herase.symm hpos p.dist_pos hlisted
      obtain ⟨shared, hshared, heq⟩ := List.mem_map.mp hmem
      exact List.mem_map.mpr ⟨shared, hshared, congrArg Node.id heq⟩

/-- Every long id has tables of objects at a client. -/
theorem exists_createObjects (p : Topology) (nodeList : NodeList) (order : MapOrder)
    (readings : ℕ → ℤ × ℤ) (store : Store) (hself : idSingleStart ≤ selfId.length) :
    ∃ rings after, createObjects p nodeList order selfId readings store = .ok (rings, after) := by
  obtain ⟨rings, hrings⟩ := exists_createHgfrTable_of_long p nodeList order hself
  have herase := erase_createObjects p nodeList order selfId readings store
  cases hcreate : createObjects p nodeList order selfId readings store with
  | error fault =>
      rw [hcreate, hrings] at herase
      exact nomatch herase
  | ok built => exact ⟨built.1, built.2, rfl⟩

/-- Where the rings are not kept apart, this node has two objects for itself in the ring of
states. -/
theorem not_oneNodeOneObject_zeros (hfit : NumbersFit p) (hnot : ¬KeepsApart p)
    (h : createObjects p zerosList order zeros readings store = .ok (rings, after)) :
    ¬(builtTable zeros rings).OneNodeOneObject after := by
  obtain ⟨hpeers, hdists, hcities, hcountry⟩ : 0 < p.numNodesInDist ∧ 0 < regionsOf p 0 ∧
      0 < regionsOf p 1 ∧ 0 < regionsOf p 2 := by
    rw [KeepsApart, not_or, not_or, not_or] at hnot
    obtain ⟨hpeers, hdists, hcities, hcountry⟩ := hnot
    exact ⟨Nat.pos_of_ne_zero hpeers, Nat.pos_of_ne_zero hdists, Nat.pos_of_ne_zero hcities,
      Nat.pos_of_ne_zero hcountry⟩
  have hused : p.numNodesInCountry ≠ 0 := by
    rintro hzero
    have hstates : p.numNodesInCountry / p.numCnodesInState ≠ 0 := hcountry.ne'
    rw [hzero, Nat.zero_div] at hstates
    exact hstates rfl
  obtain ⟨level, state, hreached, rfl, rfl, hlevel⟩ := reached_of_createObjects h
  intro hone
  rw [builtTable_oneNodeOneObject_iff (held_of_reached hreached).tables] at hone
  obtain ⟨third, hthird, htables⟩ := exists_reached_of_le hreached (hlevel hused)
  obtain ⟨city, hcity, hstateBlock⟩ := reached_succ hthird
  obtain ⟨dist, hdist, hcityBlock⟩ := reached_succ hcity
  obtain ⟨peer, hpeer, hdistBlock⟩ := reached_succ hdist
  have hsound : ∀ {level state}, level < 3 →
      Reached p zerosList order zeros readings store level state → Sound zeros level state :=
    fun hlevel hreached => sound_of_reached rfl hfit (fun hlt => absurd hlt (by omega)) hreached
  have hlength : ∀ {level state}, level < 3 →
      Reached p zerosList order zeros readings store level state →
        ∀ shared ∈ state.contactNodes, shared.id.length = 32 :=
    fun hlevel hreached shared hshared => ((hsound hlevel hreached).agree shared hshared).length
  -- the node climbs from its district to the ring of districts, and to that of cities
  have hpeerAmong := zeros_mem_contactNodes hpeers hpeer
  rcases blockAt_cases hdistBlock with ⟨hnot, _⟩ | ⟨_, ring, next, last, hring, rfl⟩
  · exact absurd hpeerAmong hnot
  rw [next_eq_nil_of_reached hpeer hpeerAmong (by decide)] at hring
  have hdistAmong : zeros ∈ (SharedNode.iterate order next).map SharedNode.id := by
    rw [SharedNode.map_id_iterate, (order.perm _).mem_iff]
    exact zeros_mem_next (by decide) hdists (hlength (by decide) hpeer) hpeerAmong p.city_pos hring
  rcases blockAt_cases hcityBlock with ⟨hnot, _⟩ | ⟨_, ring', next', last', hring', rfl⟩
  · exact absurd hdistAmong hnot
  have hcityNext : zeros ∈ next'.map SharedNode.id :=
    zeros_mem_next (by decide) hcities (hlength (by decide) hdist) hdistAmong p.state_pos hring'
  -- its object in the ring of cities is still there when the ring of states is made
  rcases blockAt_cases hstateBlock with ⟨hnot, _⟩ | ⟨_, ring'', next'', last'', hring'', rfl⟩
  · exact absurd hdistAmong hnot
  have hcitySound := hsound (by decide) hcity
  have hnodup : (next''.map SharedNode.id).Nodup := by
    have hids := nodup_idsAbove (by decide) (hfit.regions 2 (by decide)) hcitySound.agree_ids
      hcitySound.nodup
    exact (madeLevel_of_levelObjects (hlength (by decide) hcity) hring'').nodup_next hids
      hcitySound.nodup_next
  refine not_oneEach_of_leftOver (by decide) hcountry (hlength (by decide) hcity) hdistAmong
    hcityNext (held_of_reached hcity).next hnodup hring'' ?_
  exact hone ring'' (htables ring'' (List.mem_append_right _ List.mem_cons_self))

end EvalClient

/-- A node that forms the structure has one object for a node only in an empty district. The
tables of a client have it for any list and any own id exactly if there are no nodes, or no
regions on the way up to the ring of states. -/
theorem tables_oneNodeOneObject_iff (p : Topology) :
    (∀ startingPortNumber order selfId readings store rings after,
      BaseApp.formObjects p startingPortNumber order selfId readings store = .ok (rings, after) →
        ((builtTable selfId rings).OneNodeOneObject after ↔ p.numNodesInDist = 0)) ∧
    (EvalClient.NumbersFit p →
      ((∀ nodeList order selfId readings store rings after, selfId.length = 32 →
        EvalClient.createObjects p nodeList order selfId readings store = .ok (rings, after) →
          (builtTable selfId rings).OneNodeOneObject after) ↔ EvalClient.KeepsApart p)) := by
  refine ⟨fun startingPortNumber order selfId readings store rings after =>
    BaseApp.formObjects_oneNodeOneObject_iff, fun hfit => ⟨fun h => ?_, fun hapart => ?_⟩⟩
  · by_contra hnot
    obtain ⟨rings, after, hcreate⟩ := EvalClient.exists_createObjects p EvalClient.zerosList
      insertionOrder (fun _ => (0, 0)) noObjects
      (by decide : idSingleStart ≤ EvalClient.zeros.length)
    exact EvalClient.not_oneNodeOneObject_zeros hfit hnot hcreate
      (h _ _ _ _ _ rings after rfl hcreate)
  · exact fun nodeList order selfId readings store rings after hself hcreate =>
      EvalClient.oneNodeOneObject_of_keepsApart hself hfit hapart hcreate

open Coords BaseApp

theorem numbersFit_twoDistricts : EvalClient.NumbersFit twoDistricts :=
  ⟨by decide, by decide⟩

theorem tables_oneNodeOneObject_twoDistricts :
    ((builtTable (text (move 0 0 0 0)) formedOfTwoDistricts.1).OneNodeOneObject
        formedOfTwoDistricts.2 ↔ twoDistricts.numNodesInDist = 0) ∧
      ((∀ nodeList order selfId readings store rings after, selfId.length = 32 →
        EvalClient.createObjects twoDistricts nodeList order selfId readings store =
          .ok (rings, after) → (builtTable selfId rings).OneNodeOneObject after) ↔
        EvalClient.KeepsApart twoDistricts) :=
  ⟨(tables_oneNodeOneObject_iff twoDistricts).1 _ _ _ _ _ _ _ formObjects_twoDistricts,
    (tables_oneNodeOneObject_iff twoDistricts).2 numbersFit_twoDistricts⟩

/-- The table after the node's first peer, which is the node itself, has been pinged. -/
def pingedOfTwoDistricts : Store :=
  ((builtTable (text (move 0 0 0 0)) formedOfTwoDistricts.1).runUpdates
    [.ping 0 (text (move 0 0 0 0)) 5] formedOfTwoDistricts.2).toOption.getD noObjects

/-- One of everything. -/
def oneOfEach : Topology where
  numNodesInDist := 1
  numCnodesInDist := 1
  numNodesInCity := 1
  numCnodesInCity := 1
  numNodesInState := 1
  numCnodesInState := 1
  numNodesInCountry := 1
  numCnodesInCountry := 1
  numNodesInContinent := 1
  numContinents := 1
  numCnodesInContinent := 1

/-- The list of peers does not show a ping that the map of contact nodes shows. The only node of
a network has two objects in the ring of states. -/
theorem tables_not_oneNodeOneObject :
    formObjects twoDistricts 7000 insertionOrder (text (move 0 0 0 0)) (fun _ => (0, 0)) noObjects =
        .ok formedOfTwoDistricts ∧
      ¬(builtTable (text (move 0 0 0 0)) formedOfTwoDistricts.1).OneNodeOneObject
        formedOfTwoDistricts.2 ∧
      ∃ rings after, EvalClient.createObjects oneOfEach EvalClient.zerosList insertionOrder
          EvalClient.zeros (fun _ => (0, 0)) noObjects = .ok (rings, after) ∧
        ¬(builtTable EvalClient.zeros rings).OneNodeOneObject after := by
  refine ⟨formObjects_twoDistricts, fun hone => ?_, ?_⟩
  · have hrun : (builtTable (text (move 0 0 0 0)) formedOfTwoDistricts.1).runUpdates
        [.ping 0 (text (move 0 0 0 0)) 5] formedOfTwoDistricts.2 = .ok pingedOfTwoDistricts :=
      eq_ok_getD _ (by decide +kernel)
    have hcopy : (builtTable (text (move 0 0 0 0)) formedOfTwoDistricts.1).getNodeCopy
        pingedOfTwoDistricts 0 (text (move 0 0 0 0)) = .ok (some
          ⟨⟨text (move 0 0 0 0), "127.0.0.1".toList, 7000⟩, 5, 0⟩) := by
      decide +kernel
    have hpeer : (builtTable (text (move 0 0 0 0)) formedOfTwoDistricts.1).getPeerByOrder
        pingedOfTwoDistricts 0 0 = .ok (some
          ⟨⟨text (move 0 0 0 0), "127.0.0.1".toList, 7000⟩, 0, 0⟩) := by
      decide +kernel
    have htimes := hone.same_times _ _ hrun 0 (text (move 0 0 0 0)) _ _ (.getNodeCopy hcopy)
      (.getPeerByOrder 0 hpeer rfl)
    exact absurd htimes.1 (by decide)
  · obtain ⟨rings, after, hcreate⟩ := EvalClient.exists_createObjects oneOfEach EvalClient.zerosList
      insertionOrder (fun _ => (0, 0)) noObjects
      (by decide : idSingleStart ≤ EvalClient.zeros.length)
    have hapart : ¬EvalClient.KeepsApart oneOfEach := by
      unfold EvalClient.KeepsApart
      decide
    exact ⟨rings, after, hcreate,
      EvalClient.not_oneNodeOneObject_zeros ⟨by decide, by decide⟩ hapart hcreate⟩

end Hgfrr
