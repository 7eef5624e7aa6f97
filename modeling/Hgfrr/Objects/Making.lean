import Hgfrr.Objects.Erasure

/-!
# Objects that are made

Making objects leaves those that are there alone. What a builder puts into a ring was
made for one of its nodes, or was in the map of contact nodes before.
-/

namespace Hgfrr

namespace Store

/-- A store with more objects. -/
structure Extends (after store : Store) : Prop where
  size_le : store.size ≤ after.size
  object_eq : ∀ ref < store.size, after.object ref = store.object ref

/-- The pointers point to their nodes. -/
def Holds (store : Store) (nodes : List SharedNode) : Prop :=
  ∀ shared ∈ nodes, shared.ref < store.size ∧ (store.object shared.ref).node = shared.node

variable {store after last : Store} {nodes : List SharedNode}

theorem Extends.refl (store : Store) : store.Extends store := ⟨le_rfl, fun _ _ => rfl⟩

theorem Extends.trans (h : last.Extends after) (h' : after.Extends store) : last.Extends store where
  size_le := h'.size_le.trans h.size_le
  object_eq ref href := (h.object_eq ref (href.trans_le h'.size_le)).trans (h'.object_eq ref href)

theorem Holds.mono (h : store.Holds nodes) (hextends : after.Extends store) :
    after.Holds nodes := by
  intro shared hshared
  obtain ⟨hlt, hnode⟩ := h shared hshared
  exact ⟨hlt.trans_le hextends.size_le, hextends.object_eq _ hlt ▸ hnode⟩

theorem make_extends (store : Store) (count : ℕ) (object : NodeObject) :
    (store.make count object).Extends store where
  size_le := Nat.le_add_right _ _
  object_eq _ href := if_neg fun h => absurd h.1 (not_le.mpr href)

end Store

namespace SharedNode

variable {nodes set : List SharedNode}

theorem mem_of_mem_iterate {order : MapOrder} {shared : SharedNode}
    (h : shared ∈ iterate order nodes) : shared ∈ nodes := Arrange.mem_of_mem_arrange h

theorem map_id_iterate (order : MapOrder) (nodes : List SharedNode) :
    (iterate order nodes).map SharedNode.id = order.order (nodes.map SharedNode.id) :=
  Arrange.map_arrange (order.perm _)

theorem nodup_ids_iterate {order : MapOrder} (h : (nodes.map SharedNode.id).Nodup) :
    ((iterate order nodes).map SharedNode.id).Nodup := by
  rw [map_id_iterate]
  exact (order.perm _).nodup_iff.mpr h

theorem mem_inserts_of_mem {shared : SharedNode} (h : shared ∈ set) :
    shared ∈ nodes.foldl insert set := by
  induction nodes generalizing set with
  | nil => exact h
  | cons other nodes ih =>
      apply ih
      unfold insert
      split
      next => exact h
      next => exact List.mem_append_left _ h

/-- The first node is in the map. -/
theorem head_mem_inserts (shared : SharedNode) (nodes : List SharedNode) :
    shared ∈ (shared :: nodes).foldl insert [] := by
  rw [List.foldl_cons]
  apply mem_inserts_of_mem
  simp [insert]

/-- Iteration gives all nodes of a map. -/
theorem mem_iterate {order : MapOrder} (hnodup : (nodes.map SharedNode.id).Nodup)
    {shared : SharedNode} : shared ∈ iterate order nodes ↔ shared ∈ nodes :=
  (Arrange.arrange_perm (order.perm _) hnodup).mem_iff

/-- A map has an id once. -/
theorem nodup_ids_inserts (h : (set.map SharedNode.id).Nodup) :
    ((nodes.foldl insert set).map SharedNode.id).Nodup := by
  induction nodes generalizing set with
  | nil => exact h
  | cons shared nodes ih =>
      rw [List.foldl_cons]
      apply ih
      unfold insert
      split
      next => exact h
      next hnot => simpa using h.concat hnot

end SharedNode

namespace ObjectBuilder

variable {builder : ObjectBuilder}

/-- The references for the places of a node are those that it takes up. -/
theorem put_ref (place : Place) (made : SharedNode) :
    made.ref ≤ (builder.put place made).ref ∧
      (builder.put place made).ref < made.ref + builder.objectsPerNode := by
  unfold put objectsPerNode
  split
  next => cases place <;> simp [Place.number]
  next => exact ⟨le_rfl, Nat.lt_succ_self _⟩

/-- The objects of nodes are new, and stay. -/
theorem makeNodes_spec (store : Store) (nodes : List Node) :
    (builder.makeNodes store nodes).2.Extends store ∧
      ∀ made ∈ (builder.makeNodes store nodes).1, store.size ≤ made.ref ∧
        ∀ place, (builder.put place made).ref < (builder.makeNodes store nodes).2.size ∧
          ((builder.makeNodes store nodes).2.object (builder.put place made).ref).node =
            made.node := by
  induction nodes generalizing store with
  | nil => exact ⟨.refl store, by simp [makeNodes]⟩
  | cons node nodes ih =>
      let times := builder.readings store.size
      let next := store.make builder.objectsPerNode ⟨node, times.1, times.2⟩
      obtain ⟨hextends, hmade⟩ := ih next
      have hnext : next.Extends store := store.make_extends _ _
      refine ⟨hextends.trans hnext, fun made hmem => ?_⟩
      rcases List.mem_cons.mp hmem with rfl | hmem
      · refine ⟨le_rfl, fun place => ?_⟩
        obtain ⟨hle, hlt⟩ := builder.put_ref place ⟨node, store.size⟩
        have hobject : next.object (builder.put place ⟨node, store.size⟩).ref =
            ⟨node, times.1, times.2⟩ := if_pos ⟨hle, hlt⟩
        refine ⟨hlt.trans_le hextends.size_le, ?_⟩
        exact congrArg NodeObject.node ((hextends.object_eq _ hlt).trans hobject)
      · obtain ⟨hle, hplaces⟩ := hmade made hmem
        exact ⟨hnext.size_le.trans hle, hplaces⟩

/-- A pointer that is put somewhere for one of the objects. -/
def PutFor (builder : ObjectBuilder) (objects : List SharedNode) (shared : SharedNode) : Prop :=
  ∃ place, ∃ made ∈ objects, builder.put place made = shared

theorem putFor_of_mem_map {place : Place} {part objects : List SharedNode}
    (hpart : ∀ made ∈ part, made ∈ objects) {shared : SharedNode}
    (h : shared ∈ part.map (builder.put place)) : builder.PutFor objects shared := by
  obtain ⟨made, hmade, rfl⟩ := List.mem_map.mp h
  exact ⟨place, made, hpart made hmade, rfl⟩

/-- What a level makes of nodes: its ring, the next contact nodes, and the objects. -/
structure MadeOf (builder : ObjectBuilder) (nodes : List Node) (before : List SharedNode)
    (store : Store) (ring : SharedRing) (next : List SharedNode) (after : Store) : Prop where
  after_eq : after = (builder.makeNodes store nodes).2
  peerList_eq : ring.peerList = (builder.makeNodes store nodes).1.map (builder.put .peerList)
  peerSet_eq : ring.peerSet = SharedNode.iterate builder.order
    (((builder.makeNodes store nodes).1.map (builder.put .peerSet)).foldl SharedNode.insert [])
  mem_next : ∀ shared ∈ next, shared ∈ before ∨
    builder.PutFor (builder.makeNodes store nodes).1 shared
  mem_all : ∀ shared ∈ ring.all, shared ∈ next ∨
    builder.PutFor (builder.makeNodes store nodes).1 shared
  nodup_next : (nodes.map Node.id).Nodup → (before.map SharedNode.id).Nodup →
    (next.map SharedNode.id).Nodup

variable {ring : SharedRing} {next : List SharedNode} {store after : Store}

section ContactLevels

variable {ringLevel regions limit upTo width : ℕ} {suffix : Str → Except Fault Str}
  {list before : List SharedNode}

/-- A contact level makes some nodes, and a ring and a map of their objects. -/
theorem contactObjects_eq_ok
    (h : builder.contactObjects ringLevel regions limit upTo width suffix list before store =
      .ok (ring, next, after)) :
    ∃ nodes, next = (((builder.makeNodes store nodes).1.take limit).map
        (builder.put .contactNodes)).foldl SharedNode.insert before ∧
      after = (builder.makeNodes store nodes).2 ∧
      ring = {
        ringLevel := ringLevel
        contactNodes := SharedNode.iterate builder.order next
        predecessor := none
        successor := none
        peerSet := SharedNode.iterate builder.order (((builder.makeNodes store nodes).1.map
          (builder.put .peerSet)).foldl SharedNode.insert [])
        peerList := (builder.makeNodes store nodes).1.map (builder.put .peerList) } := by
  unfold contactObjects at h
  obtain ⟨nodeIdUntil, _, h⟩ := Except.bind_eq_ok.mp h
  obtain ⟨made, _, h⟩ := Except.bind_eq_ok.mp h
  obtain ⟨hring, hrest⟩ := Prod.mk.inj (Except.ok.inj h)
  obtain ⟨rfl, rfl⟩ := Prod.mk.inj hrest
  exact ⟨made.flatten.filterMap id, rfl, rfl, hring.symm⟩

theorem contactObjects_madeOf
    (h : builder.contactObjects ringLevel regions limit upTo width suffix list before store =
      .ok (ring, next, after)) :
    ∃ nodes, builder.MadeOf nodes before store ring next after := by
  obtain ⟨nodes, rfl, rfl, rfl⟩ := contactObjects_eq_ok h
  refine ⟨nodes, rfl, rfl, rfl, ?_, ?_, fun _ => SharedNode.nodup_ids_inserts⟩
  · intro shared hshared
    apply (SharedNode.mem_of_mem_inserts hshared).imp_right
    exact putFor_of_mem_map fun made => List.mem_of_mem_take
  · intro shared hshared
    simp only [SharedRing.all, Option.toList_none, List.append_nil, List.mem_append] at hshared
    rcases hshared with (hcontact | hpeer) | hpeer
    · exact Or.inl (SharedNode.mem_of_mem_iterate hcontact)
    · have hput := SharedNode.mem_of_mem_inserts (SharedNode.mem_of_mem_iterate hpeer)
      exact Or.inr (putFor_of_mem_map (fun _ => id) (hput.resolve_left List.not_mem_nil))
    · exact Or.inr (putFor_of_mem_map (fun _ => id) hpeer)

/-- The contact nodes of a contact level are those of the next map, and what was in it stays. -/
theorem contactObjects_next
    (h : builder.contactObjects ringLevel regions limit upTo width suffix list before store =
      .ok (ring, next, after)) :
    ring.contactNodes = SharedNode.iterate builder.order next ∧
      ∀ shared ∈ before, shared ∈ next := by
  obtain ⟨nodes, rfl, rfl, rfl⟩ := contactObjects_eq_ok h
  exact ⟨rfl, fun _ => SharedNode.mem_inserts_of_mem⟩

end ContactLevels

/-- The places of a node in the lowest ring. -/
theorem mem_numbered {nodes : List (ℕ × Node)} {objects : List SharedNode} {entry : ℕ × SharedNode}
    (h : entry ∈ (nodes.map Prod.fst).zip objects) : entry.2 ∈ objects :=
  (List.of_mem_zip h).2

theorem mem_neighbours {nodeIdInDist : ℤ} {numNodesInDist : ℕ} {nodes : List (ℕ × SharedNode)}
    {shared : SharedNode}
    (h : (neighbours nodeIdInDist numNodesInDist nodes).1 = some shared ∨
      (neighbours nodeIdInDist numNodesInDist nodes).2 = some shared) :
    ∃ entry ∈ nodes, entry.2 = shared := by
  refine List.foldlRecOn (motive := fun found : Option SharedNode × Option SharedNode =>
    ∀ shared, found.1 = some shared ∨ found.2 = some shared → ∃ entry ∈ nodes, entry.2 = shared)
    nodes _ (by simp) ?_ shared h
  intro found hfound entry hentry shared h
  have hnew : some entry.2 = some shared → ∃ entry ∈ nodes, entry.2 = shared :=
    fun heq => ⟨entry, hentry, Option.some.inj heq⟩
  simp only at h
  split_ifs at h
  · exact h.elim hnew fun hsucc => hfound shared (Or.inr hsucc)
  · exact h.elim (fun hpred => hfound shared (Or.inl hpred)) hnew
  · exact h.elim (fun hpred => hfound shared (Or.inl hpred)) hnew
  · exact h.elim hnew fun hsucc => hfound shared (Or.inr hsucc)
  · exact hfound shared h

theorem map_id_put (place : Place) (nodes : List SharedNode) :
    (nodes.map (builder.put place)).map SharedNode.id = nodes.map SharedNode.id := by
  rw [← SharedNode.map_id_node, map_node_put, SharedNode.map_id_node]

/-- The contact nodes of the district have ids of their own if its nodes do. -/
theorem peerObjects_madeOf {peers contacts : ℕ}
    (h : builder.peerObjects peers contacts store = .ok (ring, next, after)) :
    ∃ nodes, builder.MadeOf nodes [] store ring next after := by
  unfold peerObjects at h
  obtain ⟨idInDist, _, h⟩ := Except.bind_eq_ok.mp h
  obtain ⟨known, _, h⟩ := Except.bind_eq_ok.mp h
  obtain ⟨hring, hrest⟩ := Prod.mk.inj (Except.ok.inj h)
  obtain ⟨rfl, rfl⟩ := Prod.mk.inj hrest
  subst hring
  have hids := map_node_makeNodes builder store ((known.filterMap id).map Prod.snd)
  have hcontacts : ∀ made ∈ (((((known.filterMap id).map Prod.fst).zip
      (builder.makeNodes store ((known.filterMap id).map Prod.snd)).1).filter
        fun entry => entry.1 < contacts).map Prod.snd),
      made ∈ (builder.makeNodes store ((known.filterMap id).map Prod.snd)).1 := by
    intro made hmade
    obtain ⟨entry, hentry, rfl⟩ := List.mem_map.mp hmade
    exact mem_numbered (List.mem_of_mem_filter hentry)
  refine ⟨(known.filterMap id).map Prod.snd, rfl, rfl, rfl, ?_, ?_, ?_⟩
  · exact fun shared hshared => Or.inr (putFor_of_mem_map hcontacts hshared)
  · intro shared hshared
    simp only [SharedRing.all, List.mem_append, Option.mem_toList, Option.map_eq_some_iff]
      at hshared
    rcases hshared with (((hcontact | hpeer) | hpeer) | hpred) | hsucc
    · have hput := SharedNode.mem_of_mem_inserts (SharedNode.mem_of_mem_iterate hcontact)
      exact Or.inr (putFor_of_mem_map hcontacts (hput.resolve_left List.not_mem_nil))
    · have hput := SharedNode.mem_of_mem_inserts (SharedNode.mem_of_mem_iterate hpeer)
      exact Or.inr (putFor_of_mem_map (fun _ => id) (hput.resolve_left List.not_mem_nil))
    · exact Or.inr (putFor_of_mem_map (fun _ => id) hpeer)
    · obtain ⟨found, hfound, rfl⟩ := hpred
      obtain ⟨entry, hentry, rfl⟩ := mem_neighbours (Or.inl hfound)
      exact Or.inr ⟨.neighbour, entry.2, mem_numbered hentry, rfl⟩
    · obtain ⟨found, hfound, rfl⟩ := hsucc
      obtain ⟨entry, hentry, rfl⟩ := mem_neighbours (Or.inr hfound)
      exact Or.inr ⟨.neighbour, entry.2, mem_numbered hentry, rfl⟩
  · intro hnodup _
    have hlength : (builder.makeNodes store ((known.filterMap id).map Prod.snd)).1.length ≤
        ((known.filterMap id).map Prod.fst).length := by
      simpa using (congrArg List.length hids).le
    have hsub := (List.filter_sublist (l := ((known.filterMap id).map Prod.fst).zip
      (builder.makeNodes store ((known.filterMap id).map Prod.snd)).1)
      (p := fun entry => entry.1 < contacts)).map Prod.snd
    rw [List.map_snd_zip hlength] at hsub
    rw [← hids, SharedNode.map_id_node] at hnodup
    rw [map_id_put]
    exact hnodup.sublist (hsub.map SharedNode.id)

namespace MadeOf

variable {nodes : List Node} {before : List SharedNode}
  (h : builder.MadeOf nodes before store ring next after)
include h

/-- The peers are the nodes, each with a pointer. -/
theorem map_node_peerList : ring.peerList.map SharedNode.node = nodes := by
  rw [h.peerList_eq, map_node_put, map_node_makeNodes]

theorem extends_store : after.Extends store := by
  rw [h.after_eq]
  exact (makeNodes_spec store nodes).1

theorem holds_next (hbefore : store.Holds before) : after.Holds next := by
  intro shared hshared
  rcases h.mem_next shared hshared with hold | ⟨place, made, hmade, rfl⟩
  · exact hbefore.mono h.extends_store shared hold
  · rw [h.after_eq, put_node]
    exact ((makeNodes_spec store nodes).2 made hmade).2 place

/-- All pointers of the ring point to their nodes. -/
theorem holds_all (hbefore : store.Holds before) : after.Holds ring.all := by
  intro shared hshared
  rcases h.mem_all shared hshared with hnext | ⟨place, made, hmade, rfl⟩
  · exact h.holds_next hbefore shared hnext
  · rw [h.after_eq, put_node]
    exact ((makeNodes_spec store nodes).2 made hmade).2 place

end MadeOf

/-- Without nodes nothing is put anywhere. -/
theorem MadeOf.eq_nil (h : builder.MadeOf [] [] store ring next after) :
    next = [] ∧ ring.all = [] := by
  have hnot : ∀ shared, ¬builder.PutFor [] shared := by
    rintro shared ⟨place, made, hmem, _⟩
    exact absurd hmem List.not_mem_nil
  have hnext : next = [] := by
    apply List.eq_nil_iff_forall_not_mem.mpr
    intro shared hshared
    exact (h.mem_next shared hshared).elim List.not_mem_nil (hnot shared)
  refine ⟨hnext, ?_⟩
  apply List.eq_nil_iff_forall_not_mem.mpr
  intro shared hshared
  exact (h.mem_all shared hshared).elim (by simp [hnext]) (hnot shared)

end ObjectBuilder

namespace BaseApp

variable {p : Topology} {startingPortNumber : ℕ} {order : MapOrder} {selfId : Str}
  {readings : ℕ → ℤ × ℤ} {rings : List SharedRing} {store after : Store}

/-- A level that makes its ring of some nodes. -/
def MakesRing (builder : ObjectBuilder) (level : ObjectLevel) : Prop :=
  ∀ list before store ring next after, level list before store = .ok (ring, next, after) →
    ∃ nodes, builder.MadeOf nodes before store ring next after

theorem climbObjects_holds {levels : List ObjectLevel}
    (hlevels : ∀ level ∈ levels,
      MakesRing (objectBuilder p startingPortNumber order selfId readings) level)
    {list : List SharedNode}
    (h : climbObjects p startingPortNumber order selfId readings levels list store =
      .ok (rings, after)) :
    after.Extends store ∧ ∀ ring ∈ rings, after.Holds ring.all := by
  induction levels generalizing list store rings with
  | nil =>
      obtain ⟨rfl, rfl⟩ := Prod.mk.inj (Except.ok.inj h)
      exact ⟨.refl store, by simp⟩
  | cons level levels ih =>
      obtain ⟨hlevel, hrest⟩ := List.forall_mem_cons.mp hlevels
      unfold climbObjects at h
      split at h
      next =>
        obtain ⟨⟨ring, next, middle⟩, hring, h⟩ := Except.bind_eq_ok.mp h
        obtain ⟨⟨above, last⟩, habove, h⟩ := Except.bind_eq_ok.mp h
        obtain ⟨rfl, rfl⟩ := Prod.mk.inj (Except.ok.inj h)
        obtain ⟨nodes, hmade⟩ := hlevel _ _ _ _ _ _ hring
        obtain ⟨hextends, hholds⟩ := ih hrest habove
        refine ⟨hextends.trans hmade.extends_store, ?_⟩
        rw [List.forall_mem_cons]
        exact ⟨(hmade.holds_all (by simp [Store.Holds])).mono hextends, hholds⟩
      next => exact ih hrest h

theorem objectLevelsInUse_makesRing : ∀ level ∈
    objectLevelsInUse p startingPortNumber order selfId readings,
      MakesRing (objectBuilder p startingPortNumber order selfId readings) level := by
  have hlevel (ringLevel regions limit upTo width : ℕ) (suffix : Str → Except Fault Str) :
      MakesRing (objectBuilder p startingPortNumber order selfId readings)
        ((objectBuilder p startingPortNumber order selfId readings).contactObjects ringLevel
          regions limit upTo width suffix) :=
    fun _ _ _ _ _ _ => ObjectBuilder.contactObjects_madeOf
  have hdist : MakesRing _ (distObjects p startingPortNumber order selfId readings) :=
    hlevel _ _ _ _ _ _
  have hcity : MakesRing _ (cityObjects p startingPortNumber order selfId readings) :=
    hlevel _ _ _ _ _ _
  have hstate : MakesRing _ (stateObjects p startingPortNumber order selfId readings) :=
    hlevel _ _ _ _ _ _
  have hcountry : MakesRing _ (countryObjects p startingPortNumber order selfId readings) :=
    hlevel _ _ _ _ _ _
  have hcontinent : MakesRing _ (continentObjects p startingPortNumber order selfId readings) :=
    hlevel _ _ _ _ _ _
  unfold objectLevelsInUse
  split_ifs <;> simp [hdist, hcity, hstate, hcountry, hcontinent]

/-- All pointers of the tables point to their nodes. -/
theorem formObjects_holds
    (h : formObjects p startingPortNumber order selfId readings store = .ok (rings, after)) :
    ∀ ring ∈ rings, after.Holds ring.all := by
  obtain ⟨⟨ring, list, middle⟩, hring, h⟩ := Except.bind_eq_ok.mp h
  obtain ⟨⟨above, last⟩, habove, h⟩ := Except.bind_eq_ok.mp h
  obtain ⟨rfl, rfl⟩ := Prod.mk.inj (Except.ok.inj h)
  obtain ⟨nodes, hmade⟩ := ObjectBuilder.peerObjects_madeOf hring
  obtain ⟨hextends, hholds⟩ := climbObjects_holds objectLevelsInUse_makesRing habove
  rw [List.forall_mem_cons]
  exact ⟨(hmade.holds_all (by simp [Store.Holds])).mono hextends, hholds⟩

end BaseApp

end Hgfrr
