import Hgfrr.Topology.FormStructure

/-!
# Contact nodes and the number of levels

A node takes itself for a contact node of every ring that it has. It climbs to the
next level exactly when it is one, so this is right below its highest ring, and at
the highest ring only where no level is left to climb to.
-/

namespace Hgfrr

section Maps

variable {order : MapOrder} {nodes set : List Node} {node : Node} {id : Str}

theorem map_id_iterate (order : MapOrder) (nodes : List Node) :
    (order.iterate nodes).map Node.id = order.order (nodes.map Node.id) :=
  Arrange.map_filterMap_find fun _ hkey => (order.perm _).subset hkey

theorem mem_ids_iterate : id ∈ (order.iterate nodes).map Node.id ↔ id ∈ nodes.map Node.id := by
  rw [map_id_iterate]
  exact (order.perm _).mem_iff

theorem map_id_insertNode (set : List Node) (node : Node) :
    (insertNode set node).map Node.id = setInsert node.id (set.map Node.id) := by
  rw [insertNode, setInsert]
  split <;> simp

theorem mem_ids_insertNodes :
    id ∈ (nodes.foldl insertNode set).map Node.id ↔
      id ∈ nodes.map Node.id ∨ id ∈ set.map Node.id := by
  induction nodes generalizing set with
  | nil => simp
  | cons node nodes ih =>
      rw [List.foldl_cons, ih, map_id_insertNode, mem_setInsert, List.map_cons, List.mem_cons,
        or_left_comm, or_assoc]

theorem map_fst_nodeEntries (nodes : List Node) :
    (nodeEntries nodes).map Prod.fst = nodes.map Node.id := by
  rw [nodeEntries, List.map_map]
  rfl

theorem mem_keys_nodeEntries :
    id ∈ (nodeEntries (order.iterate (nodes.foldl insertNode set))).map Prod.fst ↔
      id ∈ nodes.map Node.id ∨ id ∈ set.map Node.id := by
  rw [map_fst_nodeEntries, mem_ids_iterate, mem_ids_insertNodes]

end Maps

/-- The contact nodes of a ring, and those handed to the next level, are its first peers. -/
structure Ring.FirstPeers (ring : Ring) (limit : ℕ) (next : List Node) : Prop where
  mem_contactKeys : ∀ id,
    id ∈ ring.contactNodes.map Prod.fst ↔ id ∈ ring.peerIds.take limit
  mem_next : ∀ id, id ∈ next.map Node.id ↔ id ∈ ring.peerIds.take limit

namespace TableBuilder

variable {builder : TableBuilder} {ring : Ring} {next : List Node}

theorem contactLevel_firstPeers {ringLevel regions limit upTo width : ℕ}
    {suffix : Str → Except Fault Str} {list : List Node}
    (h : builder.contactLevel ringLevel regions limit upTo width suffix list [] =
      .ok (ring, next)) :
    ring.FirstPeers limit next := by
  unfold contactLevel at h
  obtain ⟨_, _, h⟩ := Except.bind_eq_ok.mp h
  obtain ⟨made, _, h⟩ := Except.bind_eq_ok.mp h
  obtain ⟨rfl, rfl⟩ := Prod.mk.inj (Except.ok.inj h)
  constructor
  · intro id
    rw [mem_keys_nodeEntries, Ring.peerIds, List.map_take]
    simp
  · intro id
    rw [mem_ids_insertNodes, Ring.peerIds, List.map_take]
    simp

/-- The contact nodes of the lowest ring are its first peers, if all of them are known. -/
theorem peerLevel_firstPeers {node : Str → Node} {known : Str → Prop}
    (hnames : builder.Names node known) {peers contacts : ℕ}
    (hself : idSingleStart ≤ builder.selfId.length)
    (hknown : ∀ id ∈ builder.peerIds peers, known id)
    (h : builder.peerLevel peers contacts = .ok (ring, next)) :
    ring.FirstPeers contacts next := by
  obtain ⟨ring', hring, hshows, _⟩ := peerLevel_eq hnames peers contacts hself hknown
  obtain ⟨rfl, rfl⟩ := Prod.mk.inj (Except.ok.inj (hring.symm.trans h))
  constructor
  · intro id
    rw [hshows.mem_contactKeys, hshows.peerIds_eq hnames.id_eq]
  · intro id
    rw [map_id_map_node hnames.id_eq, hshows.peerIds_eq hnames.id_eq]

theorem isAmong_iff {list : List Node} :
    builder.isAmong list = true ↔ builder.selfId ∈ list.map Node.id := decide_eq_true_iff

end TableBuilder

namespace BaseApp

variable {p : Topology} {startingPortNumber : ℕ} {order : MapOrder} {selfId : Str}
  {rings : List Ring}

/-- A ring is followed by another when the own node is one of its first peers and levels
are left. -/
theorem climb_firstPeers {level n : ℕ} {list : List Node}
    (h : climb p startingPortNumber order selfId
      ((List.range' level n).map fun level list =>
        (builder p startingPortNumber order selfId).levelAt p level list []) list = .ok rings) :
    (0 < n → (selfId ∈ list.map Node.id ↔ 0 < rings.length)) ∧
      ∀ k ring, rings[k]? = some ring →
        (∀ id, id ∈ ring.contactNodes.map Prod.fst ↔
          id ∈ ring.peerIds.take (p.contactLimit (level + 1 + k))) ∧
        (k + 1 < n → (selfId ∈ ring.peerIds.take (p.contactLimit (level + 1 + k)) ↔
          k + 1 < rings.length)) := by
  induction n generalizing level list rings with
  | zero =>
      obtain rfl := Except.ok.inj h
      simp
  | succ n ih =>
      rw [List.range'_succ, List.map_cons] at h
      by_cases hamong : selfId ∈ list.map Node.id
      · rw [climb, if_pos (TableBuilder.isAmong_iff.mpr hamong)] at h
        obtain ⟨⟨ring, next⟩, hring, h⟩ := Except.bind_eq_ok.mp h
        obtain ⟨above, habove, h⟩ := Except.bind_eq_ok.mp h
        obtain rfl := Except.ok.inj h
        have hfirst : ring.FirstPeers (p.contactLimit (level + 1)) next :=
          TableBuilder.contactLevel_firstPeers hring
        obtain ⟨hsome, hrest⟩ := ih habove
        refine ⟨fun _ => ⟨fun _ => Nat.succ_pos _, fun _ => hamong⟩, fun k other hother => ?_⟩
        cases k with
        | zero =>
            obtain rfl := Option.some.inj hother
            refine ⟨hfirst.mem_contactKeys, fun hn => ?_⟩
            rw [Nat.add_zero, ← hfirst.mem_next, ← mem_ids_iterate, hsome (by omega),
              List.length_cons]
            omega
        | succ k =>
            have hk := hrest k other hother
            rw [show level + 1 + 1 + k = level + 1 + (k + 1) by omega] at hk
            refine ⟨hk.1, fun hn => ?_⟩
            rw [hk.2 (by omega), List.length_cons]
            omega
      · have hnot : (builder p startingPortNumber order selfId).isAmong list = false :=
          Bool.eq_false_iff.mpr fun htrue => hamong (TableBuilder.isAmong_iff.mp htrue)
        rw [climb_of_not_isAmong hnot] at h
        obtain rfl := Except.ok.inj h
        simp [hamong]

/-- The contact nodes of a ring are its first peers, and below the highest level in use
the ring is followed by another exactly if the own node is one of them. -/
theorem formStructure_firstPeers
    (h : formStructure p startingPortNumber order selfId = .ok rings) {level : ℕ} {ring : Ring}
    (hring : rings[level]? = some ring) :
    (∀ id, id ∈ ring.contactNodes.map Prod.fst ↔
      id ∈ ring.peerIds.take (p.contactLimit level)) ∧
    (level < p.top → (selfId ∈ ring.peerIds.take (p.contactLimit level) ↔
      level + 1 < rings.length)) := by
  have hself := (built_of_formStructure h).long_self
  obtain ⟨⟨lowest, list⟩, hlowest, h⟩ := Except.bind_eq_ok.mp h
  obtain ⟨above, habove, h⟩ := Except.bind_eq_ok.mp h
  obtain rfl := Except.ok.inj h
  have hfirst : lowest.FirstPeers p.numCnodesInDist list :=
    TableBuilder.peerLevel_firstPeers (builder_names p startingPortNumber order selfId) hself
      (fun id => length_mem_peerIds hself) hlowest
  rw [levelsInUse_eq, List.range_eq_range'] at habove
  obtain ⟨hsome, hrest⟩ := climb_firstPeers habove
  cases level with
  | zero =>
      obtain rfl := Option.some.inj hring
      refine ⟨hfirst.mem_contactKeys, fun htop => ?_⟩
      rw [List.length_cons, Nat.add_lt_add_iff_right, ← hsome htop]
      exact (hfirst.mem_next selfId).symm
  | succ level =>
      have hlevel := hrest level ring hring
      rw [Nat.zero_add, Nat.add_comm 1 level] at hlevel
      refine ⟨hlevel.1, fun htop => ?_⟩
      rw [hlevel.2 htop, List.length_cons]
      omega

end BaseApp

/-- The node has a ring at a level, and its own id is among the contact nodes. -/
def NodeTable.InContactNodes (table : NodeTable) (level : ℕ) : Prop :=
  ∃ ring, table.tables[level]? = some ring ∧ table.selfId ∈ ring.contactNodes.map Prod.fst

open BaseApp in
/-- The answer is right at every level but that of the highest ring. There it is right
only when no level is left and the node is one of the first peers. -/
theorem isContactNode_truthful_iff (p : Topology) (startingPortNumber : ℕ) (order : MapOrder)
    (selfId : Str) (rings : List Ring)
    (h : formStructure p startingPortNumber order selfId = .ok rings) (level : ℕ) :
    ((⟨selfId, rings⟩ : NodeTable).isContactNode level = true ↔
        (⟨selfId, rings⟩ : NodeTable).InContactNodes level) ↔
      (level + 1 = rings.length → level = p.top ∧ ∃ ring, rings[level]? = some ring ∧
        selfId ∈ ring.peerIds.take (p.contactLimit level)) := by
  have hbuilt := built_of_formStructure h
  have hanswer : (⟨selfId, rings⟩ : NodeTable).isContactNode level = rings[level]?.isSome :=
    NodeTable.HasRings.isContactNode_eq ⟨hbuilt.rings_pos, hbuilt.rings_le⟩
  have hlength := length_formStructure h
  rw [hanswer]
  cases hring : rings[level]? with
  | none =>
      have hnot : ¬(⟨selfId, rings⟩ : NodeTable).InContactNodes level := by
        rintro ⟨ring, hget, _⟩
        exact nomatch hget.symm.trans hring
      have hlevel : rings.length ≤ level := List.getElem?_eq_none_iff.mp hring
      simp only [Option.isSome_none, hnot, Bool.false_eq_true, iff_self, true_iff]
      intro htop
      omega
  | some ring =>
      have hlevel : level < rings.length := (List.getElem?_eq_some_iff.mp hring).1
      obtain ⟨hkeys, hnext⟩ := formStructure_firstPeers h hring
      have hmem : (⟨selfId, rings⟩ : NodeTable).InContactNodes level ↔
          selfId ∈ ring.peerIds.take (p.contactLimit level) := by
        rw [← hkeys]
        constructor
        · rintro ⟨other, hother, hself⟩
          exact Option.some.inj (hring.symm.trans hother) ▸ hself
        · exact fun hself => ⟨ring, hring, hself⟩
      rw [hmem]
      simp only [Option.isSome_some, true_iff, Option.some.injEq, exists_eq_left']
      constructor
      · intro hself hlast
        refine ⟨?_, hself⟩
        by_contra hne
        have hmore := (hnext (by omega)).mp hself
        omega
      · intro hlast
        rcases Nat.lt_or_ge (level + 1) rings.length with hmore | hmost
        · exact (hnext (by omega)).mpr hmore
        · exact (hlast (by omega)).2

/-- A city of two districts of two nodes. The first node of a district is its contact node. -/
def twoDistricts : Topology where
  numNodesInDist := 2
  numCnodesInDist := 1
  numNodesInCity := 2
  numCnodesInCity := 2
  numNodesInState := 0
  numCnodesInState := 1
  numNodesInCountry := 0
  numCnodesInCountry := 1
  numNodesInContinent := 0
  numContinents := 1
  numCnodesInContinent := 1

open Coords BaseApp

/-- The tables of the node at a place of the first district. -/
def tablesOfTwoDistricts (place : ℕ) : List Ring :=
  (formStructure twoDistricts 7000 insertionOrder (text (move 0 place 0 0))).toOption.getD []

theorem isContactNode_truthful_first :
    (⟨text (move 0 0 0 0), tablesOfTwoDistricts 0⟩ : NodeTable).isContactNode 1 = true ↔
      (⟨text (move 0 0 0 0), tablesOfTwoDistricts 0⟩ : NodeTable).InContactNodes 1 :=
  (isContactNode_truthful_iff twoDistricts 7000 insertionOrder _ _ (by decide +kernel) 1).2
    fun _ => ⟨by decide, _, rfl, by decide +kernel⟩

/-- The second node of the district takes itself for a contact node. -/
theorem isContactNode_not_truthful :
    formStructure twoDistricts 7000 insertionOrder (text (move 0 1 0 0)) =
        .ok (tablesOfTwoDistricts 1) ∧
      (⟨text (move 0 1 0 0), tablesOfTwoDistricts 1⟩ : NodeTable).isContactNode 0 = true ∧
      ¬(⟨text (move 0 1 0 0), tablesOfTwoDistricts 1⟩ : NodeTable).InContactNodes 0 := by
  refine ⟨by decide +kernel, by decide +kernel, ?_⟩
  rintro ⟨ring, hring, hself⟩
  have hkeys : (tablesOfTwoDistricts 1)[0]?.map (fun ring => ring.contactNodes.map Prod.fst) =
      some [text (move 0 0 0 0)] := by
    decide +kernel
  rw [show (tablesOfTwoDistricts 1)[0]? = some ring from hring, Option.map_some,
    Option.some.injEq] at hkeys
  rw [hkeys] at hself
  exact absurd hself (by decide)

end Hgfrr
