import Hgfrr.Model.ObjectTables

/-!
# Forgetting the objects

A builder that makes objects puts the same nodes at the same places as the one of which
it is a part. The objects that it has made keep their nodes, whatever is made after them.
-/

namespace Hgfrr

/-- The ring of the nodes that a ring's pointers point to. -/
def SharedRing.nodes (ring : SharedRing) : Ring where
  ringLevel := ring.ringLevel
  contactNodes := nodeEntries (ring.contactNodes.map SharedNode.node)
  predecessor := ring.predecessor.map SharedNode.node
  successor := ring.successor.map SharedNode.node
  peerSet := nodeEntries (ring.peerSet.map SharedNode.node)
  peerList := ring.peerList.map SharedNode.node

/-- All pointers of a ring. -/
def SharedRing.all (ring : SharedRing) : List SharedNode :=
  ring.contactNodes ++ ring.peerSet ++ ring.peerList ++ ring.predecessor.toList ++
    ring.successor.toList

namespace SharedNode

variable {nodes set : List SharedNode} {shared : SharedNode}

theorem map_id_node (nodes : List SharedNode) :
    (nodes.map SharedNode.node).map Node.id = nodes.map SharedNode.id := by
  rw [List.map_map]
  rfl

theorem map_node_insert (set : List SharedNode) (shared : SharedNode) :
    (insert set shared).map SharedNode.node = insertNode (set.map SharedNode.node) shared.node := by
  rw [insert, insertNode, map_id_node]
  by_cases hmem : shared.id ∈ set.map SharedNode.id
  · rw [if_pos hmem, if_pos (show shared.node.id ∈ _ from hmem)]
  · rw [if_neg hmem, if_neg (show shared.node.id ∉ _ from hmem), List.map_append]
    rfl

theorem map_node_inserts (nodes set : List SharedNode) :
    (nodes.foldl insert set).map SharedNode.node =
      (nodes.map SharedNode.node).foldl insertNode (set.map SharedNode.node) := by
  induction nodes generalizing set with
  | nil => rfl
  | cons shared nodes ih =>
      rw [List.foldl_cons, ih, map_node_insert, List.map_cons, List.foldl_cons]

theorem map_node_iterate (order : MapOrder) (nodes : List SharedNode) :
    (iterate order nodes).map SharedNode.node = order.iterate (nodes.map SharedNode.node) :=
  (Arrange.arrange_map SharedNode.node nodes).symm

theorem mem_of_mem_insert {other : SharedNode} (h : shared ∈ insert set other) :
    shared ∈ set ∨ shared = other := by
  unfold insert at h
  split at h
  next => exact Or.inl h
  next => simpa using h

theorem mem_of_mem_inserts (h : shared ∈ nodes.foldl insert set) :
    shared ∈ set ∨ shared ∈ nodes := by
  induction nodes generalizing set with
  | nil => exact Or.inl h
  | cons other nodes ih =>
      rcases ih h with hmem | hmem
      · rcases mem_of_mem_insert hmem with hset | rfl
        · exact Or.inl hset
        · exact Or.inr List.mem_cons_self
      · exact Or.inr (List.mem_cons_of_mem _ hmem)

end SharedNode

/-- The places decide which nodes are neighbours, whatever the nodes are. -/
theorem neighbours_map {α β : Type} (f : α → β) (nodeIdInDist : ℤ) (numNodesInDist : ℕ)
    (nodes : List (ℕ × α)) :
    neighbours nodeIdInDist numNodesInDist (nodes.map (Prod.map id f)) =
      Prod.map (Option.map f) (Option.map f) (neighbours nodeIdInDist numNodesInDist nodes) := by
  unfold neighbours
  rw [List.foldl_map]
  change List.foldl _ (Prod.map (Option.map f) (Option.map f) (none, none)) nodes = _
  refine List.foldl_hom (Prod.map (Option.map f) (Option.map f)) fun found entry => ?_
  simp only [Prod.map_fst, Prod.map_snd, id]
  split_ifs <;> rfl

namespace ObjectBuilder

variable {builder : ObjectBuilder}

theorem put_node (place : Place) (made : SharedNode) :
    (builder.put place made).node = made.node := by
  unfold put
  split <;> rfl

theorem map_node_put (place : Place) (nodes : List SharedNode) :
    (nodes.map (builder.put place)).map SharedNode.node = nodes.map SharedNode.node := by
  rw [List.map_map]
  exact List.map_congr_left fun made _ => put_node place made

variable (builder) in
theorem map_node_makeNodes (store : Store) (nodes : List Node) :
    (builder.makeNodes store nodes).1.map SharedNode.node = nodes := by
  induction nodes generalizing store with
  | nil => rfl
  | cons node nodes ih => exact congrArg (node :: ·) (ih _)

theorem isAmongShared_eq (contactNodes : List SharedNode) :
    builder.isAmongShared contactNodes = builder.isAmong (contactNodes.map SharedNode.node) := by
  rw [isAmongShared, TableBuilder.isAmong, SharedNode.map_id_node]

variable (builder) in
/-- The ring of a contact level has the nodes of the level without objects. -/
theorem erase_contactObjects (ringLevel regions limit upTo width : ℕ)
    (suffix : Str → Except Fault Str) (list before : List SharedNode) (store : Store) :
    (builder.contactObjects ringLevel regions limit upTo width suffix list before store).map
        (fun built => (built.1.nodes, built.2.1.map SharedNode.node)) =
      builder.contactLevel ringLevel regions limit upTo width suffix
        (list.map SharedNode.node) (before.map SharedNode.node) := by
  unfold contactObjects TableBuilder.contactLevel
  simp only [List.mapM_map, Function.comp_def, SharedNode.id]
  cases substr builder.selfId 0 upTo with
  | error fault => rfl
  | ok nodeIdUntil =>
      simp only [bind, Except.bind]
      split
      next => rfl
      next made _ =>
        simp only [pure, Except.pure, Except.map, SharedRing.nodes, SharedNode.map_node_iterate,
          SharedNode.map_node_inserts, map_node_put, map_node_makeNodes, List.map_take,
          List.map_nil, Option.map_none]

variable (builder) in
/-- The objects of nodes with their places. -/
theorem map_numbered (store : Store) (nodes : List (ℕ × Node)) :
    ((nodes.map Prod.fst).zip (builder.makeNodes store (nodes.map Prod.snd)).1).map
      (Prod.map id SharedNode.node) = nodes := by
  rw [← List.zip_map_right, map_node_makeNodes]
  exact (List.zip_of_prod rfl rfl).symm

theorem map_node_contacts (numbered : List (ℕ × SharedNode)) (contacts : ℕ) :
    ((numbered.filter fun entry => entry.1 < contacts).map Prod.snd).map SharedNode.node =
      ((numbered.map (Prod.map id SharedNode.node)).filter
        fun entry => entry.1 < contacts).map Prod.snd := by
  rw [List.filter_map, List.map_map, List.map_map]
  rfl

variable (builder) in
/-- The ring of the district has the nodes of the ring without objects. -/
theorem erase_peerObjects (peers contacts : ℕ) (store : Store) :
    (builder.peerObjects peers contacts store).map
        (fun built => (built.1.nodes, built.2.1.map SharedNode.node)) =
      builder.peerLevel peers contacts := by
  unfold peerObjects TableBuilder.peerLevel
  cases substr builder.selfId idSingleStart idSingleLen with
  | error fault => rfl
  | ok idInDist =>
      simp only [bind, Except.bind]
      split
      next => rfl
      next made _ =>
        have hnumbered := map_numbered builder store (made.filterMap id)
        have hfound := neighbours_map SharedNode.node (streamInt idInDist) peers
          (((made.filterMap id).map Prod.fst).zip
            (builder.makeNodes store ((made.filterMap id).map Prod.snd)).1)
        rw [hnumbered] at hfound
        simp only [pure, Except.pure, Except.map, SharedRing.nodes, SharedNode.map_node_iterate,
          SharedNode.map_node_inserts, map_node_put, map_node_makeNodes, map_node_contacts,
          hnumbered, List.map_nil, Option.map_map, Function.comp_def, put_node]
        rw [hfound]
        rfl

end ObjectBuilder

/-! ## Whole tables -/

/-- Two computations in sequence, and what is left of them. -/
theorem map_bind_eq {ε α β γ δ : Type} {x : Except ε α} {y : Except ε γ} {f : α → γ} {g : β → δ}
    {next : α → Except ε β} {next' : γ → Except ε δ} (hx : x.map f = y)
    (hnext : ∀ a, (next a).map g = next' (f a)) : (x >>= next).map g = y >>= next' := by
  subst hx
  cases x with
  | error fault => rfl
  | ok a => exact hnext a

/-- A level with objects is the level of the nodes. -/
def ObjectLevel.Erases (level : ObjectLevel)
    (nodeLevel : List Node → List Node → Except Fault (Ring × List Node)) : Prop :=
  ∀ list before store, (level list before store).map
      (fun built => (built.1.nodes, built.2.1.map SharedNode.node)) =
    nodeLevel (list.map SharedNode.node) (before.map SharedNode.node)

theorem ObjectBuilder.contactObjects_erases (builder : ObjectBuilder)
    (ringLevel regions limit upTo width : ℕ) (suffix : Str → Except Fault Str) :
    ObjectLevel.Erases (builder.contactObjects ringLevel regions limit upTo width suffix)
      (builder.contactLevel ringLevel regions limit upTo width suffix) :=
  builder.erase_contactObjects ringLevel regions limit upTo width suffix

namespace BaseApp

variable {p : Topology} {startingPortNumber : ℕ} {order : MapOrder} {selfId : Str}
  {readings : ℕ → ℤ × ℤ}

theorem erase_climbObjects {levels : List ObjectLevel}
    {nodeLevels : List (List Node → Except Fault (Ring × List Node))}
    (hlevels : List.Forall₂ (fun level nodeLevel => ∀ list store, (level list [] store).map
      (fun built => (built.1.nodes, built.2.1.map SharedNode.node)) =
        nodeLevel (list.map SharedNode.node)) levels nodeLevels)
    (list : List SharedNode) (store : Store) :
    (climbObjects p startingPortNumber order selfId readings levels list store).map
        (fun built => built.1.map SharedRing.nodes) =
      climb p startingPortNumber order selfId nodeLevels (list.map SharedNode.node) := by
  induction hlevels generalizing list store with
  | nil => rfl
  | @cons level nodeLevel levels nodeLevels hlevel _ ih =>
      have hsame : (objectBuilder p startingPortNumber order selfId readings).isAmongShared list =
          (builder p startingPortNumber order selfId).isAmong (list.map SharedNode.node) :=
        ObjectBuilder.isAmongShared_eq list
      rw [climbObjects, climb, hsame, ← hlevel list store]
      split
      next =>
        apply map_bind_eq rfl
        rintro ⟨ring, next, after⟩
        have hrest := ih (SharedNode.iterate order next) after
        rw [SharedNode.map_node_iterate] at hrest
        exact map_bind_eq hrest fun _ => rfl
      next => exact ih list store

/-- Each level in use is one of the levels of the nodes. -/
theorem erase_objectLevelsInUse :
    List.Forall₂ (fun level nodeLevel => ∀ list store, (level list [] store).map
      (fun built => (built.1.nodes, built.2.1.map SharedNode.node)) =
        nodeLevel (list.map SharedNode.node))
      (objectLevelsInUse p startingPortNumber order selfId readings)
      (levelsInUse p startingPortNumber order selfId) := by
  have hlevel (ringLevel regions limit upTo width : ℕ) (suffix : Str → Except Fault Str)
      (list : List SharedNode) (store : Store) :=
    (objectBuilder p startingPortNumber order selfId readings).contactObjects_erases ringLevel
      regions limit upTo width suffix list [] store
  unfold objectLevelsInUse levelsInUse
  split_ifs
  · exact .nil
  · exact .cons (hlevel _ _ _ _ _ _) .nil
  · exact .cons (hlevel _ _ _ _ _ _) (.cons (hlevel _ _ _ _ _ _) .nil)
  · exact .cons (hlevel _ _ _ _ _ _) (.cons (hlevel _ _ _ _ _ _) (.cons (hlevel _ _ _ _ _ _) .nil))
  · exact .cons (hlevel _ _ _ _ _ _) (.cons (hlevel _ _ _ _ _ _) (.cons (hlevel _ _ _ _ _ _)
      (.cons (hlevel _ _ _ _ _ _) (.cons (hlevel _ _ _ _ _ _) .nil))))

/-- Without its objects a table is the one that is formed of nodes. -/
theorem erase_formObjects (store : Store) :
    (formObjects p startingPortNumber order selfId readings store).map
        (fun built => built.1.map SharedRing.nodes) =
      formStructure p startingPortNumber order selfId := by
  have hpeer := (objectBuilder p startingPortNumber order selfId readings).erase_peerObjects
    p.numNodesInDist p.numCnodesInDist store
  unfold formObjects formStructure
  apply map_bind_eq hpeer
  rintro ⟨ring, list, after⟩
  exact map_bind_eq (erase_climbObjects erase_objectLevelsInUse list after) fun _ => rfl

end BaseApp

namespace EvalClient

variable {nodeList : NodeList} {order : MapOrder} {selfId : Str} {readings : ℕ → ℤ × ℤ}

def ObjectState.nodes (state : ObjectState) : TableState where
  tables := state.tables.map SharedRing.nodes
  contactNodes := state.contactNodes.map SharedNode.node
  contactNodesNext := state.contactNodesNext.map SharedNode.node

theorem erase_objectBlock (builder : ObjectBuilder) (exchange : Bool) {level : ObjectLevel}
    {nodeLevel : List Node → List Node → Except Fault (Ring × List Node)}
    (hlevel : level.Erases nodeLevel) (state : ObjectState) :
    (objectBlock builder exchange level state).map ObjectState.nodes =
      block builder.toTableBuilder exchange nodeLevel state.nodes := by
  rw [objectBlock, block, ObjectBuilder.isAmongShared_eq]
  change _ = if builder.isAmong (state.contactNodes.map SharedNode.node) = true then _ else _
  split
  next =>
    apply map_bind_eq (hlevel state.contactNodes state.contactNodesNext state.store)
    rintro ⟨ring, next, after⟩
    cases exchange with
    | true => simp [Except.map, ObjectState.nodes, pure, Except.pure, SharedNode.map_node_iterate]
    | false => simp [Except.map, ObjectState.nodes, pure, Except.pure]
  next => rfl

/-- Without its objects a client's table is the one that is built of nodes. -/
theorem erase_createObjects (p : Topology) (nodeList : NodeList) (order : MapOrder) (selfId : Str)
    (readings : ℕ → ℤ × ℤ) (store : Store) :
    (createObjects p nodeList order selfId readings store).map
        (fun built => built.1.map SharedRing.nodes) =
      createHgfrTable p nodeList order selfId := by
  have hblock (exchange : Bool) (ringLevel regions limit upTo width : ℕ)
      (suffix : Str → Except Fault Str) :=
    erase_objectBlock (objectBuilder nodeList order selfId readings) exchange
      (ObjectBuilder.contactObjects_erases (objectBuilder nodeList order selfId readings) ringLevel
        regions limit upTo width suffix)
  unfold createObjects createHgfrTable
  apply map_bind_eq (ObjectBuilder.erase_peerObjects _ _ _ store)
  rintro ⟨ring, list, after⟩
  apply map_bind_eq (hblock true _ _ _ _ _ _ ⟨[ring], list, [], after⟩)
  intro dist
  apply map_bind_eq (hblock false _ _ _ _ _ _ dist)
  intro city
  split
  next => rfl
  next =>
    apply map_bind_eq (hblock true _ _ _ _ _ _ city)
    intro state
    split
    next => rfl
    next =>
      apply map_bind_eq (hblock true _ _ _ _ _ _ state)
      intro country
      exact map_bind_eq (hblock false _ _ _ _ _ _ country) fun _ => rfl

end EvalClient

end Hgfrr
