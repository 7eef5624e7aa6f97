import Hgfrr.Topology.Shape
import Hgfrr.Topology.Tables

/-!
# What forming the structure gives

The rings that a node of the network builds are those that it works out in its
regions: the peers and contact nodes are the ids of the coordinates, in the same
order.
-/

namespace Hgfrr

open Coords

section Results

universe u

theorem mapM_eq_ok_map {ε : Type*} {α β : Type u} {compute : α → Except ε β} {result : α → β}
    {items : List α} (h : ∀ a ∈ items, compute a = .ok (result a)) :
    items.mapM compute = .ok (items.map result) := by
  induction items with
  | nil => rfl
  | cons a items ih =>
      obtain ⟨ha, hitems⟩ := List.forall_mem_cons.mp h
      rw [List.mapM_cons, ha, ih hitems]
      rfl

theorem filterMap_id_map_some {α β : Type*} (result : α → β) (items : List α) :
    (items.map fun a => some (result a)).filterMap id = items.map result := by
  rw [List.filterMap_map, ← List.filterMap_eq_map]
  rfl

end Results

/-! ## Nodes known by their ids -/

section Names

variable {node : Str → Node} (hname : ∀ id, (node id).id = id)
include hname

theorem map_id_map_node (ids : List Str) : (ids.map node).map Node.id = ids := by
  rw [List.map_map]
  exact (List.map_congr_left fun id _ => hname id).trans (List.map_id ids)

theorem find_map_node {ids : List Str} {key : Str} (hkey : key ∈ ids) :
    ((ids.map node).find? fun other => other.id = key) = some (node key) := by
  induction ids with
  | nil => exact absurd hkey (by simp)
  | cons id ids ih =>
      rw [List.map_cons, List.find?_cons, hname]
      by_cases heq : id = key
      · simp [heq]
      · rw [decide_eq_false heq]
        exact ih ((List.mem_cons.mp hkey).resolve_left (Ne.symm heq))

theorem iterate_map_node (order : MapOrder) (ids : List Str) :
    order.iterate (ids.map node) = (order.order ids).map node := by
  rw [MapOrder.iterate, map_id_map_node hname]
  have hfind (key : Str) (hkey : key ∈ order.order ids) :
      ((ids.map node).find? fun other => other.id = key) = (some ∘ node) key :=
    find_map_node hname ((order.perm ids).subset hkey)
  rw [List.filterMap_congr hfind, List.filterMap_eq_map]

theorem insertNode_map_node (id : Str) (ids : List Str) :
    insertNode (ids.map node) (node id) = (setInsert id ids).map node := by
  rw [insertNode, setInsert, map_id_map_node hname, hname]
  split <;> simp

theorem foldl_insertNode_map_node (ids before : List Str) :
    (ids.map node).foldl insertNode (before.map node) =
      (ids.foldl (fun set id => setInsert id set) before).map node := by
  induction ids generalizing before with
  | nil => rfl
  | cons id ids ih =>
      rw [List.map_cons, List.foldl_cons, insertNode_map_node hname, ih]
      rfl

theorem nodeEntries_map_node (ids : List Str) :
    nodeEntries (ids.map node) = ids.map fun id => (id, node id) := by
  rw [nodeEntries, List.map_map]
  exact List.map_congr_left fun id _ => by simp [hname]

/-- The entries of a map of nodes, in some order. -/
theorem nodeEntries_iterate_perm (order : MapOrder) (ids : List Str) :
    (nodeEntries (order.iterate (ids.map node))).Perm (ids.map fun id => (id, node id)) := by
  rw [iterate_map_node hname, nodeEntries_map_node hname]
  exact (order.perm ids).map _

end Names

theorem foldl_setInsert_of_nodup {α : Type*} [DecidableEq α] {items before : List α}
    (h : (before ++ items).Nodup) :
    items.foldl (fun set item => setInsert item set) before = before ++ items := by
  induction items generalizing before with
  | nil => simp
  | cons item items ih =>
      have hnot : item ∉ before := by
        intro hmem
        exact (List.nodup_append.mp h).2.2 item hmem item (by simp) rfl
      rw [List.foldl_cons, setInsert, if_neg hnot, ih (by simpa using h), List.append_assoc]
      rfl

theorem filter_range_lt (n bound : ℕ) :
    (List.range n).filter (fun i => i < bound) = (List.range n).take bound := by
  induction n with
  | zero => simp
  | succ n ih =>
      rw [List.range_succ, List.filter_append, ih, List.take_append, List.length_range]
      congr 1
      by_cases hlt : n < bound
      · rw [List.take_of_length_le (by simp only [List.length_singleton]; omega)]
        simp [hlt]
      · rw [show bound - n = 0 by omega]
        simp [hlt]

/-- A ring with given peers and contact nodes. -/
structure Ring.Shows (ring : Ring) (node : Str → Node) (level : ℕ) (peers contacts : List Str) :
    Prop where
  ringLevel : ring.ringLevel = level
  peerList : ring.peerList = peers.map node
  peerSet : ring.peerSet.Perm (peers.map fun id => (id, node id))
  contactNodes : ring.contactNodes.Perm (contacts.map fun id => (id, node id))

namespace Ring.Shows

variable {ring : Ring} {node : Str → Node} {level : ℕ} {peers contacts : List Str}
  (h : ring.Shows node level peers contacts)
include h

theorem mem_peerKeys {id : Str} : id ∈ ring.peerSet.map Prod.fst ↔ id ∈ peers := by
  rw [(h.peerSet.map Prod.fst).mem_iff, List.map_map]
  simp

theorem mem_contactKeys {id : Str} : id ∈ ring.contactNodes.map Prod.fst ↔ id ∈ contacts := by
  rw [(h.contactNodes.map Prod.fst).mem_iff, List.map_map]
  simp

variable (hname : ∀ id, (node id).id = id)
include hname

theorem peerIds_eq : ring.peerIds = peers := by
  rw [Ring.peerIds, h.peerList, map_id_map_node hname]

theorem contactIds_perm : ring.contactIds.Perm contacts := by
  refine (h.contactNodes.map fun entry => entry.2.id).trans ?_
  rw [List.map_map, Function.comp_def]
  simp [hname]

end Ring.Shows

/-! ## One level -/

namespace TableBuilder

variable {builder : TableBuilder} {node : Str → Node} {known : Str → Prop}

/-- Ids that are known have nodes of the same id. -/
structure Names (builder : TableBuilder) (node : Str → Node) (known : Str → Prop) : Prop where
  id_eq : ∀ id, (node id).id = id
  mkNode_eq : ∀ id, known id → builder.mkNode id = .ok (some (node id))

/-- The ids of the lowest ring. -/
def peerIds (builder : TableBuilder) (peers : ℕ) : List Str :=
  (List.range peers).map fun i => builder.selfId.take idSingleStart ++ setw idSingleLen i

/-- The ids of the ring of a contact level. -/
def levelIds (builder : TableBuilder) (regions upTo width : ℕ) (rest : Str → Str)
    (contacts : List Str) : List Str :=
  (List.range regions).flatMap fun i =>
    contacts.map fun contact => builder.selfId.take upTo ++ setw width i ++ rest contact

theorem length_levelIds (builder : TableBuilder) {regions upTo width : ℕ} {rest : Str → Str}
    {contacts : List Str} :
    (builder.levelIds regions upTo width rest contacts).length = regions * contacts.length := by
  simp [levelIds, List.length_flatMap]

theorem nodup_peerIds (builder : TableBuilder) (peers : ℕ) : (builder.peerIds peers).Nodup := by
  refine List.Nodup.map (fun i j h => ?_) List.nodup_range
  exact setw_injective _ (List.append_cancel_left h)

/-- The nodes of the lowest ring, with their places. -/
theorem peerLevel_made (hnames : builder.Names node known) (peers : ℕ)
    (hknown : ∀ id ∈ builder.peerIds peers, known id) :
    ((List.range peers).mapM fun i => do
      let nodeIdUntilDist ← substr builder.selfId 0 idSingleStart
      let node ← builder.mkNode (nodeIdUntilDist ++ setw idSingleLen i)
      return node.map fun node => (i, node)) =
        .ok ((List.range peers).map fun i =>
          some (i, node (builder.selfId.take idSingleStart ++ setw idSingleLen i))) := by
  refine mapM_eq_ok_map fun i hi => ?_
  have hmk := hnames.mkNode_eq _ (hknown _ (List.mem_map_of_mem hi))
  rw [substr_of_le (Nat.zero_le _), List.drop_zero]
  simp only [bind, Except.bind]
  rw [hmk]
  rfl

theorem peerLevel_eq (hnames : builder.Names node known) (peers contacts : ℕ)
    (hself : idSingleStart ≤ builder.selfId.length)
    (hknown : ∀ id ∈ builder.peerIds peers, known id) :
    ∃ ring, builder.peerLevel peers contacts =
        .ok (ring, ((builder.peerIds peers).take contacts).map node) ∧
      ring.Shows node 0 (builder.peerIds peers) ((builder.peerIds peers).take contacts) ∧
      (ring.predecessor, ring.successor) =
        neighbours (streamInt ((builder.selfId.drop idSingleStart).take idSingleLen)) peers
          ((List.range peers).map fun i =>
            (i, node (builder.selfId.take idSingleStart ++ setw idSingleLen i))) := by
  have hid := hnames.id_eq
  have hnodup := nodup_peerIds builder peers
  have hmade := peerLevel_made hnames peers hknown
  let idOf : ℕ → Str := fun i => builder.selfId.take idSingleStart ++ setw idSingleLen i
  change _ = Except.ok ((List.range peers).map fun i => some (i, node (idOf i))) at hmade
  have hnodes : ((List.range peers).map fun i => some (i, node (idOf i))).filterMap id =
      (List.range peers).map fun i => (i, node (idOf i)) :=
    filterMap_id_map_some _ _
  have hpeers : ((List.range peers).map fun i => (i, node (idOf i))).map Prod.snd =
      (builder.peerIds peers).map node := by
    rw [peerIds, List.map_map, List.map_map]
    rfl
  have hcontacts : (((List.range peers).map fun i => (i, node (idOf i))).filter
      fun entry => entry.1 < contacts).map Prod.snd =
        ((builder.peerIds peers).take contacts).map node := by
    rw [List.map_take, ← hpeers, List.filter_map, ← List.map_take, ← List.map_take]
    exact congrArg (fun numbers => (numbers.map fun i => (i, node (idOf i))).map Prod.snd)
      (filter_range_lt peers contacts)
  have hset (ids : List Str) (hids : ids.Nodup) :
      (ids.map node).foldl insertNode [] = ids.map node := by
    have hfold := foldl_insertNode_map_node hid ids []
    rwa [foldl_setInsert_of_nodup (by simpa using hids), List.nil_append] at hfold
  unfold peerLevel
  rw [substr_of_le hself]
  simp only [bind, Except.bind] at hmade ⊢
  rw [hmade]
  simp only [hnodes, hcontacts, hpeers, hset _ hnodup,
    hset _ (hnodup.sublist (List.take_sublist contacts _))]
  exact ⟨_, rfl, ⟨rfl, rfl, nodeEntries_iterate_perm hid _ _,
    nodeEntries_iterate_perm hid _ _⟩, rfl⟩

/-- The peers of a contact level have the ids of the level. -/
theorem contactLevel_made (hnames : builder.Names node known) {regions upTo width : ℕ}
    {suffix : Str → Except Fault Str} {rest : Str → Str} {contacts : List Str}
    (hsuffix : ∀ id ∈ contacts, suffix id = .ok (rest id))
    (hknown : ∀ id ∈ builder.levelIds regions upTo width rest contacts, known id) :
    ∃ made, ((List.range regions).mapM fun i => (contacts.map node).mapM fun contactNode => do
        let rest ← suffix contactNode.id
        builder.mkNode (builder.selfId.take upTo ++ setw width i ++ rest)) = .ok made ∧
      made.flatten.filterMap id = (builder.levelIds regions upTo width rest contacts).map node := by
  have hrow (i : ℕ) (hi : i ∈ List.range regions) :
      ((contacts.map node).mapM fun contactNode => do
        let rest ← suffix contactNode.id
        builder.mkNode (builder.selfId.take upTo ++ setw width i ++ rest)) =
      .ok (contacts.map fun contact =>
        some (node (builder.selfId.take upTo ++ setw width i ++ rest contact))) := by
    rw [List.mapM_map]
    refine mapM_eq_ok_map fun contact hcontact => ?_
    rw [Function.comp_apply, hnames.id_eq, hsuffix contact hcontact]
    refine hnames.mkNode_eq _ (hknown _ ?_)
    exact List.mem_flatMap.mpr ⟨i, hi, List.mem_map_of_mem hcontact⟩
  refine ⟨_, mapM_eq_ok_map hrow, ?_⟩
  rw [← List.flatMap_def, List.filterMap_flatMap, levelIds, List.map_flatMap]
  simp only [filterMap_id_map_some, List.map_map, Function.comp_def]

theorem contactLevel_peerIds (hnames : builder.Names node known) {regions upTo width : ℕ}
    {suffix : Str → Except Fault Str} {rest : Str → Str} {contacts : List Str}
    (hsuffix : ∀ id ∈ contacts, suffix id = .ok (rest id))
    (hknown : ∀ id ∈ builder.levelIds regions upTo width rest contacts, known id)
    {ringLevel limit : ℕ} {next next' : List Node} {ring : Ring}
    (h : builder.contactLevel ringLevel regions limit upTo width suffix (contacts.map node) next =
      .ok (ring, next')) :
    ring.peerIds = builder.levelIds regions upTo width rest contacts := by
  obtain ⟨made, hmade, hpeers⟩ := contactLevel_made hnames hsuffix hknown
  unfold contactLevel at h
  rw [substr_of_le (Nat.zero_le _), List.drop_zero] at h
  simp only [bind, Except.bind] at hmade h
  rw [hmade] at h
  obtain ⟨rfl, rfl⟩ := Prod.mk.inj (Except.ok.inj h)
  rw [Ring.peerIds, hpeers, map_id_map_node hnames.id_eq]

theorem contactLevel_eq (hnames : builder.Names node known) {regions upTo width : ℕ}
    {suffix : Str → Except Fault Str} {rest : Str → Str} {contacts : List Str}
    (hsuffix : ∀ id ∈ contacts, suffix id = .ok (rest id))
    (hknown : ∀ id ∈ builder.levelIds regions upTo width rest contacts, known id)
    (hnodup : (builder.levelIds regions upTo width rest contacts).Nodup)
    (ringLevel limit : ℕ) (before : List Str) :
    ∃ ring, builder.contactLevel ringLevel regions limit upTo width suffix (contacts.map node)
        (before.map node) =
        .ok (ring, (((builder.levelIds regions upTo width rest contacts).take limit).foldl
          (fun set id => setInsert id set) before).map node) ∧
      ring.Shows node ringLevel (builder.levelIds regions upTo width rest contacts)
        (((builder.levelIds regions upTo width rest contacts).take limit).foldl
          (fun set id => setInsert id set) before) := by
  have hid := hnames.id_eq
  obtain ⟨made, hmade, hpeers⟩ := contactLevel_made hnames hsuffix hknown
  set ids := builder.levelIds regions upTo width rest contacts with hids
  have hset : (ids.map node).foldl insertNode [] = ids.map node := by
    have hfold := foldl_insertNode_map_node hid ids []
    rwa [foldl_setInsert_of_nodup (by simpa using hnodup), List.nil_append] at hfold
  unfold contactLevel
  rw [substr_of_le (Nat.zero_le _), List.drop_zero]
  simp only [bind, Except.bind] at hmade ⊢
  rw [hmade]
  simp only [hpeers, hset, ← List.map_take, foldl_insertNode_map_node hid]
  exact ⟨_, rfl, rfl, rfl, nodeEntries_iterate_perm hid _ _, nodeEntries_iterate_perm hid _ _⟩

end TableBuilder

/-! ## The levels of the regions -/

/-- What a contact level keeps of the ids of the level below. -/
def suffixOf : ℕ → Str → Except Fault Str
  | 0, id => substr id idSingleStart idSingleLen
  | level + 1, id => substrFrom id (idStart (level + 1))

theorem idStart_le (level : ℕ) : idStart level ≤ idSingleStart := by
  unfold idStart
  split <;> decide

/-- Of a whole id a level keeps the segments below. -/
theorem suffixOf_of_length {level : ℕ} {id : Str} (h : id.length = 32) :
    suffixOf level id = .ok (id.drop (idStart level)) := by
  cases level with
  | zero =>
      rw [suffixOf, substr_of_le (by rw [h]; decide), List.take_of_length_le]
      · rfl
      · rw [List.length_drop, h]
        decide
  | succ level =>
      refine if_pos ?_
      rw [h]
      exact (idStart_le _).trans (by decide)

theorem suffixOf_text {level : ℕ} {c : Coords} (hc : FitsText c) :
    suffixOf level (text c) = .ok ((text c).drop (idStart level)) :=
  suffixOf_of_length (length_text hc)

/-- A contact level of a topology. -/
def TableBuilder.levelAt (builder : TableBuilder) (p : Topology) (level : ℕ)
    (contacts before : List Node) : Except Fault (Ring × List Node) :=
  builder.contactLevel (level + 1) (p.regionCount (level + 1)) (p.contactLimit (level + 1))
    (idStart (level + 1)) (idLen (level + 1)) (suffixOf level) contacts before

section Levels

variable {p : Topology} {order : MapOrder} {top level : ℕ} {x c : Coords}
  {builder : TableBuilder} {node : Str → Node} {known : Str → Prop}

/-- The nodes of a ring have numbers that fit, if those of all regions below the highest do. -/
theorem Topology.fitsText_of_mem_peers (hfit : p.NumbersFit top)
    (hx : (p.regionsUpTo top order).Member x) (htext : FitsText x) (hlevel : level < top)
    (hc : c ∈ (p.regionsUpTo top order).peers level x) : FitsText c := by
  intro l hl
  rcases Nat.lt_or_ge level l with hlt | hge
  · rw [← Regions.agreeFrom_of_mem_peers hc l hlt]
    exact htext l hl
  · exact fits_of_member (Regions.member_of_mem_peers hx hc) hfit (by omega)

variable (hself : builder.selfId = text x)
  (hnames : builder.Names node known)
  (hknown : ∀ y, (p.regionsUpTo top order).Member y → known (text y))
  (hR : (p.regionsUpTo top order).Keyed) (hfit : p.NumbersFit top)
  (hx : (p.regionsUpTo top order).Member x) (htext : FitsText x)

include hself htext in
theorem TableBuilder.peerIds_text :
    builder.peerIds p.numNodesInDist = ((p.regionsUpTo top order).peers 0 x).map text := by
  rw [Regions.peers, Regions.spread, Topology.counts_of_le (Nat.zero_le _), Regions.below,
    TableBuilder.peerIds, hself, List.map_flatMap]
  simp only [List.map_singleton, ← List.map_eq_flatMap]
  refine List.map_congr_left fun i _ => ?_
  exact text_move_zero htext

include hself htext in
theorem TableBuilder.levelIds_spread (hlevel : level < top) (htop : top ≤ 5) {below : List Coords}
    (hagree : ∀ c ∈ below, AgreeFrom (level + 1) x c) :
    builder.levelIds (p.regionCount (level + 1)) (idStart (level + 1)) (idLen (level + 1))
        (fun id => id.drop (idStart level)) (below.map text) =
      ((p.regionsUpTo top order).spread (level + 1) below x).map text := by
  rw [Regions.spread, Topology.counts_of_le hlevel, TableBuilder.levelIds, hself, List.map_flatMap]
  refine List.flatMap_congr fun i _ => ?_
  rw [List.map_map, List.map_map]
  refine List.map_congr_left fun c hc => ?_
  exact text_move (by omega) htext (hagree c hc)

include hself hnames hknown hx htext in
/-- The lowest ring is that of the own district. -/
theorem TableBuilder.peerLevel_text :
    ∃ ring, builder.peerLevel p.numNodesInDist p.numCnodesInDist =
        .ok (ring, (((p.regionsUpTo top order).contacts 0 x).map text).map node) ∧
      ring.Shows node 0 (((p.regionsUpTo top order).peers 0 x).map text)
        (((p.regionsUpTo top order).kept 0 x).map text) := by
  have hids : builder.peerIds p.numNodesInDist = ((p.regionsUpTo top order).peers 0 x).map text :=
    TableBuilder.peerIds_text hself htext
  have hlong : idSingleStart ≤ builder.selfId.length := by
    rw [hself, length_text htext]
    decide
  obtain ⟨ring, hring, hshows, _⟩ := TableBuilder.peerLevel_eq hnames p.numNodesInDist
    p.numCnodesInDist hlong fun id hid => by
      rw [hids] at hid
      obtain ⟨y, hy, rfl⟩ := List.mem_map.mp hid
      exact hknown y (Regions.member_of_mem_peers hx hy)
  rw [hids, ← List.map_take] at hring hshows
  exact ⟨ring, hring, hshows⟩

include hself hnames hknown hR hx htext in
/-- A contact level moves nodes to all its regions. The map of contact nodes may have held
others before. -/
theorem TableBuilder.levelAt_spread (hlevel : level < top) (htop : top ≤ 5) {below : List Coords}
    (hmember : ∀ c ∈ below, (p.regionsUpTo top order).Member c)
    (hagree : ∀ c ∈ below, AgreeFrom (level + 1) x c) (hfits : ∀ c ∈ below, FitsText c)
    (hnodup : ((p.regionsUpTo top order).spread (level + 1) below x).Nodup) (before : List Str) :
    ∃ ring, builder.levelAt p level ((below.map text).map node) (before.map node) =
        .ok (ring, (((((p.regionsUpTo top order).spread (level + 1) below x).take
          (p.contactLimit (level + 1))).map text).foldl
            (fun set id => setInsert id set) before).map node) ∧
      ring.Shows node (level + 1) (((p.regionsUpTo top order).spread (level + 1) below x).map text)
        (((((p.regionsUpTo top order).spread (level + 1) below x).take
          (p.contactLimit (level + 1))).map text).foldl
            (fun set id => setInsert id set) before) := by
  have hids : builder.levelIds (p.regionCount (level + 1)) (idStart (level + 1))
      (idLen (level + 1)) (fun id => id.drop (idStart level)) (below.map text) =
        ((p.regionsUpTo top order).spread (level + 1) below x).map text :=
    TableBuilder.levelIds_spread hself htext hlevel htop hagree
  have hspread : ∀ c ∈ (p.regionsUpTo top order).spread (level + 1) below x,
      (p.regionsUpTo top order).Member c := by
    intro c hc
    obtain ⟨i, hi, d, hd, rfl⟩ := Regions.mem_spread.mp hc
    exact Regions.member_move hx (hmember d hd) hi
  have hsuffix : ∀ id ∈ below.map text, suffixOf level id = .ok (id.drop (idStart level)) := by
    intro id hid
    obtain ⟨c, hc, rfl⟩ := List.mem_map.mp hid
    exact suffixOf_text (hfits c hc)
  obtain ⟨ring, hring, hshows⟩ := TableBuilder.contactLevel_eq hnames hsuffix
    (fun id hid => by
      rw [hids] at hid
      obtain ⟨y, hy, rfl⟩ := List.mem_map.mp hid
      exact hknown y (hspread y hy))
    (hids ▸ hR.nodup_keys hspread hnodup) (level + 1) (p.contactLimit (level + 1)) before
  rw [hids, ← List.map_take] at hring hshows
  exact ⟨ring, hring, hshows⟩

include hself hnames hknown hR hfit hx htext in
/-- A contact level makes the ring above from the contact nodes of a ring. -/
theorem TableBuilder.levelAt_text (hlevel : level < top) (htop : top ≤ 5) (before : List Str) :
    ∃ ring, builder.levelAt p level
        ((((p.regionsUpTo top order).contacts level x).map text).map node) (before.map node) =
        .ok (ring, ((((p.regionsUpTo top order).kept (level + 1) x).map text).foldl
          (fun set id => setInsert id set) before).map node) ∧
      ring.Shows node (level + 1) (((p.regionsUpTo top order).peers (level + 1) x).map text)
        ((((p.regionsUpTo top order).kept (level + 1) x).map text).foldl
          (fun set id => setInsert id set) before) := by
  refine TableBuilder.levelAt_spread hself hnames hknown hR hx htext hlevel htop
    (fun c hc => ?_) (fun c hc => ?_) (fun c hc => ?_) (Regions.nodup_peers hR hx) before
  · exact Regions.member_of_mem_peers hx (Regions.mem_peers_of_mem_contacts hc)
  · exact Regions.agreeFrom_of_mem_peers (Regions.mem_peers_of_mem_contacts hc)
  · exact Topology.fitsText_of_mem_peers hfit hx htext hlevel (Regions.mem_peers_of_mem_contacts hc)

/-- The next vector of contact nodes is in the order of their map. -/
theorem iterate_kept_text (hname : ∀ id, (node id).id = id) (level : ℕ) :
    order.iterate ((((p.regionsUpTo top order).kept (level + 1) x).map text).map node) =
      (((p.regionsUpTo top order).contacts (level + 1) x).map text).map node := by
  rw [iterate_map_node hname, Regions.contacts_succ]
  exact congrArg (List.map node) (Arrange.map_arrange (order.perm _)).symm

include hR hx in
theorem Topology.nodup_kept_text (level : ℕ) :
    (((p.regionsUpTo top order).kept level x).map text).Nodup :=
  Regions.nodup_keys_kept hR hx

include hself hnames hR hx in
theorem TableBuilder.isAmong_text (level : ℕ) :
    builder.isAmong ((((p.regionsUpTo top order).contacts level x).map text).map node) = true ↔
      x ∈ (p.regionsUpTo top order).contacts level x := by
  rw [TableBuilder.isAmong, map_id_map_node hnames.id_eq, hself, decide_eq_true_iff, List.mem_map]
  constructor
  · rintro ⟨c, hc, heq⟩
    have hmember := Regions.member_of_mem_peers hx (Regions.mem_peers_of_mem_contacts hc)
    exact hR.key_inj c x hmember hx heq ▸ hc
  · exact fun hmem => ⟨x, hmem, rfl⟩

end Levels

end Hgfrr
