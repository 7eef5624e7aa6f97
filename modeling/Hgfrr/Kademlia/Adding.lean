import Hgfrr.Kademlia.Table

/-!
# Adding a node to the routing table

Adding either puts the node at the tail of its bucket, or gives back the head of
a full bucket that may not be split, or raises. No node is lost in any case, even
when buckets were split before the exception.
-/

namespace Hgfrr.Kademlia

open Dyadic

variable [Sha3]

namespace RoutingTable

variable {t t' : RoutingTable} {node : Node} {place : Place} {now fuel : ℕ}

/-- What is raised while a node is added: the id ends its bucket, or the nodes of
its full bucket share all bits but the last. -/
inductive Raises (t : RoutingTable) (node : Node) : Error → Prop
  | outOfBucket {b : KBucket} (hb : b ∈ t.buckets) (hstop : b.stop = node.id) :
      Raises t node .outOfBucket
  | noBucket {b : KBucket} (hb : b ∈ t.buckets) (hstop : b.stop = node.id) :
      Raises t node .noBucket
  | noDepth {b : KBucket} (hb : b ∈ t.buckets) (hfull : b.isFull) (hnode : b.inRange node)
      (hshares : b.Shares (kIdSize - 1)) : Raises t node .noDepth

/-- A failed search of the bucket is one of the errors a call may raise. -/
theorem raises_of_bucketByNode (h : t.Wf) {e : Error}
    (hfind : bucketByNode node t.buckets = .error e) : Raises t node e := by
  obtain ⟨b, hb, hstop⟩ := exists_stop_of_error h.tiles (Nat.zero_le _) (KBucket.id_lt node) hfind
  rcases error_of_bucketByNode hfind with rfl | rfl
  · exact .outOfBucket hb hstop
  · exact .noBucket hb hstop

/-- How the table is after adding a node: the node is at the tail of its bucket,
or the bucket is full and is not to be split, or an exception was raised. -/
inductive Outcome (t : RoutingTable) (node : Node) :
    Except Error (Option Node) → RoutingTable → Prop
  | added {t' : RoutingTable} {b : KBucket} (hnodes : t'.nodes.Perm (t.nodes.erase node ++ [node]))
      (hb : b ∈ t'.buckets) (htail : b.nodes.getLast? = some node) : Outcome t node (.ok none) t'
  | full {t' : RoutingTable} {b : KBucket} {candidate : Node} {depth : ℕ}
      (hnodes : t'.nodes.Perm t.nodes) (hnot : node ∉ t.nodes) (hb : b ∈ t'.buckets)
      (hfull : b.isFull) (hnode : b.inRange node) (hhead : b.nodes.head? = some candidate)
      (hdepth : b.depth = .ok depth) (hsplits : ¬ t.splits b depth) :
      Outcome t node (.ok (some candidate)) t'
  | raised {t' : RoutingTable} {e : Error} (hnodes : t'.nodes.Perm t.nodes)
      (hraises : Raises t' node e) : Outcome t node (.error e) t'

/-- A node that was added goes to the end. -/
def seen (node : Node) (result : Except Error (Option Node)) (nodes : List Node) : List Node :=
  match result with
  | .ok none => nodes.erase node ++ [node]
  | _ => nodes

omit [Sha3] in
theorem seen_sublist {nodes nodes' : List Node} (result : Except Error (Option Node))
    (h : nodes.Sublist nodes') : (seen node result nodes).Sublist (seen node result nodes') := by
  unfold seen
  split
  · exact (h.erase node).append_right _
  · exact h

/-- What adding a node keeps, and how it ends. -/
structure Adds (t : RoutingTable) (node : Node)
    (result : Except Error (Option Node) × RoutingTable) : Prop where
  wf : result.2.Wf
  thisNode : result.2.thisNode = t.thisNode
  replacements : result.2.replacements.Perm t.replacements
  order : ∀ b ∈ result.2.buckets,
    ∃ b' ∈ t.buckets, b.nodes.Sublist (seen node result.1 b'.nodes)
  outcome : Outcome t node result.1 result.2

/-! ## Replacing a bucket -/

omit [Sha3] in
/-- The nodes after the buckets at a place were replaced. -/
theorem nodes_put_perm (hplace : t.buckets = place.put [place.bucket]) (bs : List KBucket) :
    ({ t with buckets := place.put bs } : RoutingTable).nodes.Perm
        ((place.before ++ place.after).flatMap KBucket.nodes ++ bs.flatMap KBucket.nodes) ∧
      t.nodes.Perm
        ((place.before ++ place.after).flatMap KBucket.nodes ++ place.bucket.nodes) := by
  refine ⟨flatMap_put_perm _ _ _, ?_⟩
  have hperm := flatMap_put_perm KBucket.nodes place [place.bucket]
  rw [← hplace, List.flatMap_singleton] at hperm
  exact hperm

/-- The other buckets do not hold the node. -/
theorem Wf.not_mem_others (h : t.Wf) (hplace : t.buckets = place.put [place.bucket])
    (hnode : place.bucket.inRange node) :
    node ∉ (place.before ++ place.after).flatMap KBucket.nodes := by
  intro hmem
  obtain ⟨b, hb, hn⟩ := List.mem_flatMap.mp hmem
  have htiles := h.tiles
  rw [hplace] at htiles
  refine htiles.not_mem_of_mem hnode hb ((h.buckets b ?_).inRange node hn)
  rw [hplace, Place.put]
  rcases List.mem_append.mp hb with hfront | hback
  · exact List.mem_append_left _ (List.mem_append_left _ hfront)
  · exact List.mem_append_right _ hback

/-- A table with the same nodes does. -/
theorem Adds.of_perm {result : Except Error (Option Node) × RoutingTable} (h : Adds t' node result)
    (hnodes : t'.nodes.Perm t.nodes) (hthis : t'.thisNode = t.thisNode)
    (hreplacements : t'.replacements.Perm t.replacements)
    (horder : ∀ b ∈ t'.buckets, ∃ b' ∈ t.buckets, b.nodes.Sublist b'.nodes) :
    Adds t node result where
  wf := h.wf
  thisNode := h.thisNode.trans hthis
  replacements := h.replacements.trans hreplacements
  order := by
    intro b hb
    obtain ⟨b', hb', hsub⟩ := h.order b hb
    obtain ⟨b'', hb'', hsub'⟩ := horder b' hb'
    exact ⟨b'', hb'', hsub.trans (seen_sublist _ hsub')⟩
  outcome := by
    obtain ⟨result, t''⟩ := result
    have hsplits : ∀ b depth, t'.splits b depth ↔ t.splits b depth := by
      intro b depth
      rw [splits, splits, hthis]
    cases h.outcome with
    | added hperm hb htail =>
        exact .added (hperm.trans ((hnodes.erase node).append_right _)) hb htail
    | full hperm hnot hb hfull hnode hhead hdepth hsplit =>
        refine .full (hperm.trans hnodes) ?_ hb hfull hnode hhead hdepth ?_
        · exact fun hmem => hnot (hnodes.mem_iff.mpr hmem)
        · exact fun hs => hsplit ((hsplits _ _).mpr hs)
    | raised hperm hraises => exact .raised (hperm.trans hnodes) hraises

/-- The blocks that a node can be in are smaller than the fuel. -/
def Fueled (t : RoutingTable) (node : Node) (fuel : ℕ) : Prop :=
  ∀ b ∈ t.buckets, b.inRange node → ∃ bits < fuel, Block bits b.start b.stop

theorem Wf.fueled (h : t.Wf) (hfuel : kIdSize < fuel) : Fueled t node fuel := by
  intro b hb _
  obtain ⟨bits, hblock⟩ := (h.buckets b hb).block
  refine ⟨bits, lt_of_le_of_lt ?_ hfuel, hblock⟩
  have hbounds := h.tiles.bounds hb
  have hlast := hblock.2
  rw [← Nat.pow_le_pow_iff_right one_lt_two]
  omega

/-- The node was put at the tail of its bucket. -/
theorem adds_of_none (h : t.Wf) (hthis : node ≠ t.thisNode)
    (hplace : t.buckets = place.put [place.bucket]) (hnode : place.bucket.inRange node)
    {b : KBucket} (hadd : place.bucket.addNode node now = (b, none)) :
    Adds t node (.ok none, { t with buckets := place.put [b] }) := by
  obtain ⟨hnodes, hstart, hstop, hreplacements⟩ := KBucket.addNode_eq_none hadd
  have hmem : place.bucket ∈ t.buckets := by simp [hplace, Place.put]
  have hwf : b.Wf := by
    have hwf := KBucket.addNode_wf (h.buckets _ hmem) hnode now
    rwa [hadd] at hwf
  obtain ⟨hnew, hold⟩ := nodes_put_perm hplace [b]
  rw [List.flatMap_singleton, hnodes] at hnew
  refine ⟨h.put hplace (fun mid mid' => tiles_singleton hstart hstop) (by simpa using hwf) ?_,
    rfl, ?_, ?_, .added ?_ (b := b) (by simp [Place.put]) (by simp [hnodes])⟩
  · intro b' hb' hthis'
    rw [List.mem_singleton.mp hb', hnodes, List.mem_append, List.mem_singleton] at hthis'
    rcases hthis' with hthis' | hthis'
    · exact h.thisNode (hold.mem_iff.mpr (List.mem_append_right _ (List.mem_of_mem_erase hthis')))
    · exact hthis hthis'.symm
  · have hput := flatMap_put_perm KBucket.replacementCache place
    have hold := hput [place.bucket]
    rw [← hplace, List.flatMap_singleton, ← hreplacements] at hold
    refine (hput [b]).trans ?_
    rw [List.flatMap_singleton]
    exact hold.symm
  · refine forall_mem_put hplace [b] ?_ ?_
    · intro b' hb' hother
      refine ⟨b', hb', ?_⟩
      have hnot : node ∉ b'.nodes := fun hn =>
        h.not_mem_others hplace hnode (List.mem_flatMap.mpr ⟨b', hother, hn⟩)
      rw [seen, List.erase_of_not_mem hnot]
      exact List.sublist_append_left _ _
    · rw [List.forall_mem_singleton, hnodes]
      exact ⟨_, hmem, List.Sublist.refl _⟩
  · refine hnew.trans ?_
    rw [← List.append_assoc]
    apply List.Perm.append_right
    -- the node moves to the end of its own bucket, the others stay
    have herase := hold.erase node
    rw [List.erase_append_right _ (h.not_mem_others hplace hnode)] at herase
    exact herase.symm

/-- A bucket replaced by others with its nodes. -/
theorem put_of_perm (h : t.Wf) (hplace : t.buckets = place.put [place.bucket]) (bs : List KBucket)
    (htiles : ∀ mid mid', Tiles KBucket.start KBucket.stop mid mid' [place.bucket] →
      Tiles KBucket.start KBucket.stop mid mid' bs)
    (hbs : ∀ b ∈ bs, b.Wf) (hnodes : (bs.flatMap KBucket.nodes).Perm place.bucket.nodes)
    (hreplacements :
      (bs.flatMap KBucket.replacementCache).Perm place.bucket.replacementCache) :
    ({ t with buckets := place.put bs } : RoutingTable).Wf ∧
      ({ t with buckets := place.put bs } : RoutingTable).nodes.Perm t.nodes ∧
      ({ t with buckets := place.put bs } : RoutingTable).replacements.Perm t.replacements := by
  obtain ⟨hnew, hold⟩ := nodes_put_perm hplace bs
  refine ⟨h.put hplace htiles hbs ?_, hnew.trans ((hnodes.append_left _).trans hold.symm), ?_⟩
  · intro b hb hthis
    apply h.thisNode
    rw [hold.mem_iff, List.mem_append]
    exact Or.inr (hnodes.subset (List.mem_flatMap.mpr ⟨b, hb, hthis⟩))
  · have hput := flatMap_put_perm KBucket.replacementCache place
    have hold := hput [place.bucket]
    rw [← hplace, List.flatMap_singleton] at hold
    exact (hput bs).trans ((hreplacements.append_left _).trans hold.symm)

/-- A bucket that has a depth can be split. -/
theorem exists_bits {b : KBucket} (h : b.Wf) (htwo : 2 ≤ b.nodes.length) {depth bits : ℕ}
    (hdepth : b.depth = .ok depth) (hblock : Block bits b.start b.stop) :
    ∃ half, bits = half + 1 := by
  cases bits with
  | zero => exact absurd hdepth (KBucket.depth_ne_ok h hblock (Nat.zero_le 1) htwo)
  | succ half => exact ⟨half, rfl⟩

/-- The buckets with the halves of one. -/
def halved (t : RoutingTable) (place : Place) (now : ℕ) : RoutingTable :=
  { t with buckets := place.put [place.bucket.lowerHalf now, place.bucket.upperHalf now] }

theorem tiles_halves {b : KBucket} {half mid mid' : ℕ} (hblock : Block (half + 1) b.start b.stop)
    (h : Tiles KBucket.start KBucket.stop mid mid' [b]) :
    Tiles KBucket.start KBucket.stop mid mid' [b.lowerHalf now, b.upperHalf now] :=
  ⟨h.1, hblock.lower.first_le_last, rfl, hblock.upper.first_le_last, h.2.2⟩

/-- Splitting a bucket keeps the table, with smaller blocks for the node. -/
theorem halved_wf (h : t.Wf) (hplace : t.buckets = place.put [place.bucket])
    (hnode : place.bucket.inRange node) {half : ℕ}
    (hblock : Block (half + 1) place.bucket.start place.bucket.stop) (hfuel : half < fuel)
    (now : ℕ) :
    (t.halved place now).Wf ∧ (t.halved place now).nodes.Perm t.nodes ∧
      (t.halved place now).replacements.Perm t.replacements ∧
      Fueled (t.halved place now) node fuel := by
  have hmem : place.bucket ∈ t.buckets := by simp [hplace, Place.put]
  have hwf := h.buckets _ hmem
  have hhalves : ∀ b ∈ [place.bucket.lowerHalf now, place.bucket.upperHalf now],
      b.Wf ∧ Block half b.start b.stop := by
    rw [List.forall_mem_cons, List.forall_mem_singleton]
    exact ⟨⟨KBucket.lowerHalf_wf hwf hblock, hblock.lower⟩,
      KBucket.upperHalf_wf hwf hblock, hblock.upper⟩
  have hput := put_of_perm h hplace [place.bucket.lowerHalf now, place.bucket.upperHalf now]
    (fun mid mid' => tiles_halves hblock) (fun b hb => (hhalves b hb).1)
    (by simpa using KBucket.nodes_halves_perm place.bucket now)
    (by simpa using KBucket.replacements_halves_perm place.bucket now)
  refine ⟨hput.1, hput.2.1, hput.2.2, ?_⟩
  intro b hb hin
  have htiles := h.tiles
  rw [hplace] at htiles
  -- only the halves can have the id
  rcases List.mem_append.mp hb with hfront | hback
  · rcases List.mem_append.mp hfront with hmem | hmem
    · exact absurd hin (htiles.not_mem_of_mem hnode (List.mem_append_left _ hmem))
    · exact ⟨half, hfuel, (hhalves b hmem).2⟩
  · exact absurd hin (htiles.not_mem_of_mem hnode (List.mem_append_right _ hback))

/-- What `add_node` does to a table. -/
theorem addNode_adds (h : t.Wf) (hthis : node ≠ t.thisNode) (hfuel : Fueled t node fuel)
    (now : ℕ) : Adds t node (t.addNode node now fuel) := by
  induction fuel generalizing t with
  | zero =>
      obtain ⟨b, hb, hnode⟩ := h.tiles.exists_piece (Nat.zero_le _) (KBucket.id_lt node)
      -- the bucket of the node has fewer than no bits left to be split
      obtain ⟨bits, hbits, -⟩ := hfuel b hb hnode
      exact absurd hbits (Nat.not_lt_zero bits)
  | succ fuel ih =>
      rw [addNode, if_neg hthis]
      cases hfind : bucketByNode node t.buckets with
      | error e =>
          exact ⟨h, rfl, List.Perm.refl _, fun b hb => ⟨b, hb, List.Sublist.refl _⟩,
            .raised (List.Perm.refl _) (raises_of_bucketByNode h hfind)⟩
      | ok place =>
          obtain ⟨hplace, hstart, hstop⟩ := bucketByNode_eq_ok hfind
          have hnode : place.bucket.inRange node := ⟨hstart, hstop.le⟩
          have hmem : place.bucket ∈ t.buckets := by simp [hplace, Place.put]
          have hwf := h.buckets _ hmem
          rcases hadd : place.bucket.addNode node now with ⟨b, _ | candidate⟩
          · dsimp only
            rw [hadd]
            exact adds_of_none h hthis hplace hnode hadd
          · obtain ⟨hnot, hle, hhead, rfl⟩ := KBucket.addNode_eq_some hadd
            dsimp only
            rw [hadd]
            dsimp only
            have hfull : place.bucket.isFull := le_antisymm hwf.length_le hle
            have htouched := put_of_perm h hplace [{ place.bucket with lastUpdated := now }]
              (fun mid mid' => tiles_singleton rfl rfl)
              (List.forall_mem_singleton.mpr (hwf.touch now)) (by simp) (by simp)
            have horder : ∀ b ∈ place.put [{ place.bucket with lastUpdated := now }],
                ∃ b' ∈ t.buckets, b.nodes.Sublist b'.nodes :=
              forall_mem_put hplace _ (fun b hb _ => ⟨b, hb, List.Sublist.refl _⟩)
                (List.forall_mem_singleton.mpr ⟨_, hmem, List.Sublist.refl _⟩)
            split
            next e hdepth =>
              obtain ⟨rfl, hshares⟩ := KBucket.depth_eq_error hdepth
              exact ⟨htouched.1, rfl, htouched.2.2, horder, .raised htouched.2.1
                (.noDepth (b := { place.bucket with lastUpdated := now }) (by simp [Place.put])
                  hfull hnode hshares)⟩
            next depth hdepth =>
              split
              next =>
                obtain ⟨bits, hbits, hblock⟩ := hfuel _ hmem hnode
                obtain ⟨half, rfl⟩ := exists_bits (hwf.touch now) (le_trans (by decide) hle)
                  hdepth hblock
                rw [KBucket.split_eq (hwf.touch now)]
                have hhalved := halved_wf h hplace hnode hblock (Nat.lt_of_succ_lt_succ hbits) now
                -- the node is added again, to the halves
                refine (ih hhalved.1 hthis hhalved.2.2.2).of_perm hhalved.2.1 rfl hhalved.2.2.1 ?_
                refine forall_mem_put hplace _ (fun b hb _ => ⟨b, hb, List.Sublist.refl _⟩) ?_
                rw [List.forall_mem_cons, List.forall_mem_singleton]
                exact ⟨⟨_, hmem, List.filter_sublist⟩, ⟨_, hmem, List.filter_sublist⟩⟩
              next hsplits =>
                refine ⟨htouched.1, rfl, htouched.2.2, horder, .full htouched.2.1 ?_
                  (b := { place.bucket with lastUpdated := now }) (by simp [Place.put]) hfull
                  hnode hhead hdepth hsplits⟩
                intro hin
                rw [(nodes_put_perm hplace [place.bucket]).2.mem_iff, List.mem_append] at hin
                exact hin.elim (h.not_mem_others hplace hnode) hnot

/-- No node is lost. -/
theorem Adds.mem_nodes_iff {result : Except Error (Option Node) × RoutingTable}
    (h : Adds t node result) {n : Node} :
    (n ∈ t.nodes → n ∈ result.2.nodes) ∧ (n ∈ result.2.nodes → n = node ∨ n ∈ t.nodes) := by
  obtain ⟨result, t'⟩ := result
  cases h.outcome with
  | added hnodes =>
      refine ⟨fun hn => hnodes.mem_iff.mpr (List.mem_append.mpr ?_), fun hn => ?_⟩
      · by_cases heq : n = node
        · exact Or.inr (by simp [heq])
        · exact Or.inl ((List.mem_erase_of_ne heq).mpr hn)
      · rcases List.mem_append.mp (hnodes.mem_iff.mp hn) with hmem | hmem
        · exact Or.inr (List.mem_of_mem_erase hmem)
        · exact Or.inl (List.mem_singleton.mp hmem)
  | full hnodes => exact ⟨hnodes.mem_iff.mpr, fun hn => Or.inr (hnodes.mem_iff.mp hn)⟩
  | raised hnodes => exact ⟨hnodes.mem_iff.mpr, fun hn => Or.inr (hnodes.mem_iff.mp hn)⟩

/-- What every call of `add_node` keeps. -/
structure Grows (t : RoutingTable) (node : Node) (t' : RoutingTable) : Prop where
  wf : t'.Wf
  thisNode : t'.thisNode = t.thisNode
  replacements : t'.replacements.Perm t.replacements
  mem_nodes : ∀ n ∈ t.nodes, n ∈ t'.nodes
  eq_or_mem : ∀ n ∈ t'.nodes, n = node ∨ n ∈ t.nodes

/-- `add_node` adds the node or finds the head that has to be pinged. -/
theorem addNode_grows (h : t.Wf) (node : Node) (now : ℕ) :
    Grows t node (t.addNode node now (kIdSize + 1)).2 := by
  by_cases hthis : node = t.thisNode
  · rw [addNode, if_pos hthis]
    exact ⟨h, rfl, List.Perm.refl _, fun _ hn => hn, fun _ hn => Or.inr hn⟩
  · have hadds := addNode_adds h hthis (h.fueled (Nat.lt_succ_self kIdSize)) now
    exact ⟨hadds.wf, hadds.thisNode, hadds.replacements, fun _ => hadds.mem_nodes_iff.1,
      fun _ => hadds.mem_nodes_iff.2⟩

/-! ## Removing and caching -/

/-- What removing a node keeps, and how it ends. -/
structure Removes (t : RoutingTable) (node : Node) (result : Except Error Unit × RoutingTable) :
    Prop where
  wf : result.2.Wf
  thisNode : result.2.thisNode = t.thisNode
  replacements : result.2.replacements.Perm t.replacements
  order : ∀ b ∈ result.2.buckets, ∃ b' ∈ t.buckets, b.nodes.Sublist b'.nodes
  nodes : result.2.nodes.Perm (t.nodes.erase node) ∨ result.2 = t
  raises : ∀ e, result.1 = .error e → Raises t node e

/-- `remove_node` takes out one node and no other. -/
theorem removeNode_removes (h : t.Wf) (node : Node) : Removes t node (t.removeNode node) := by
  rw [removeNode]
  cases hfind : bucketByNode node t.buckets with
  | error e =>
      refine ⟨h, rfl, List.Perm.refl _, fun b hb => ⟨b, hb, List.Sublist.refl _⟩, Or.inr rfl, ?_⟩
      intro e' he
      obtain rfl := Except.error.inj he
      exact raises_of_bucketByNode h hfind
  | ok place =>
      obtain ⟨hplace, hstart, hstop⟩ := bucketByNode_eq_ok hfind
      have hnode : place.bucket.inRange node := ⟨hstart, hstop.le⟩
      have hmem : place.bucket ∈ t.buckets := by simp [hplace, Place.put]
      obtain ⟨hnew, hold⟩ := nodes_put_perm hplace [place.bucket.removeNode node]
      rw [List.flatMap_singleton] at hnew
      refine ⟨h.put hplace (fun mid mid' => tiles_singleton rfl rfl)
        (List.forall_mem_singleton.mpr (KBucket.removeNode_wf (h.buckets _ hmem)))
        (List.forall_mem_singleton.mpr ?_), rfl, ?_, ?_, Or.inl ?_, by simp⟩
      · intro hthis
        exact h.thisNode (hold.mem_iff.mpr
          (List.mem_append_right _ (List.mem_of_mem_erase hthis)))
      · have hput := flatMap_put_perm KBucket.replacementCache place
        have hold := hput [place.bucket]
        rw [← hplace] at hold
        exact (hput _).trans hold.symm
      · refine forall_mem_put hplace _ (fun b hb _ => ⟨b, hb, List.Sublist.refl _⟩) ?_
        exact List.forall_mem_singleton.mpr ⟨_, hmem, List.erase_sublist⟩
      · refine hnew.trans ?_
        have herase := hold.erase node
        rw [List.erase_append_right _ (h.not_mem_others hplace hnode)] at herase
        exact herase.symm

theorem Removes.mem_nodes_iff {result : Except Error Unit × RoutingTable}
    (h : Removes t node result) {n : Node} :
    (n ∈ t.nodes → n ≠ node → n ∈ result.2.nodes) ∧ (n ∈ result.2.nodes → n ∈ t.nodes) := by
  rcases h.nodes with hperm | heq
  · exact ⟨fun hn hne => hperm.mem_iff.mpr ((List.mem_erase_of_ne hne).mpr hn),
      fun hn => List.mem_of_mem_erase (hperm.mem_iff.mp hn)⟩
  · rw [heq]
    exact ⟨fun hn _ => hn, id⟩

/-- What caching a replacement keeps, and how it ends. -/
structure Caches (t : RoutingTable) (node : Node) (result : Except Error Unit × RoutingTable) :
    Prop where
  wf : result.2.Wf
  thisNode : result.2.thisNode = t.thisNode
  nodes : result.2.nodes.Perm t.nodes
  replacements : ∀ n ∈ result.2.replacements, n = node ∨ n ∈ t.replacements
  raises : ∀ e, result.1 = .error e → Raises t node e

/-- `add_replacement` changes the caches only. -/
theorem addReplacement_caches (h : t.Wf) (node : Node) : Caches t node (t.addReplacement node) := by
  rw [addReplacement]
  cases hfind : bucketByNode node t.buckets with
  | error e =>
      refine ⟨h, rfl, List.Perm.refl _, fun n hn => Or.inr hn, ?_⟩
      intro e' he
      obtain rfl := Except.error.inj he
      exact raises_of_bucketByNode h hfind
  | ok place =>
      obtain ⟨hplace, hstart, hstop⟩ := bucketByNode_eq_ok hfind
      have hmem : place.bucket ∈ t.buckets := by simp [hplace, Place.put]
      have hwf := h.buckets _ hmem
      obtain ⟨hnew, hold⟩ := nodes_put_perm hplace [{ place.bucket with
        replacementCache := place.bucket.replacementCache ++ [node] }]
      rw [List.flatMap_singleton] at hnew
      refine ⟨h.put hplace (fun mid mid' => tiles_singleton rfl rfl)
        (List.forall_mem_singleton.mpr ⟨hwf.block, hwf.inRange, ?_, hwf.nodup, hwf.length_le⟩)
        (List.forall_mem_singleton.mpr ?_), rfl, hnew.trans hold.symm, ?_, by simp⟩
      · intro n hn
        rcases List.mem_append.mp hn with hn | hn
        · exact hwf.replacements n hn
        · rw [List.mem_singleton.mp hn]
          exact ⟨hstart, hstop.le⟩
      · intro hthis
        exact h.thisNode (hold.mem_iff.mpr (List.mem_append_right _ hthis))
      · intro n hn
        have hput := flatMap_put_perm KBucket.replacementCache place
        have hold := hput [place.bucket]
        rw [← hplace, List.flatMap_singleton] at hold
        have hn' := (hput _).mem_iff.mp hn
        rw [List.flatMap_singleton, ← List.append_assoc, List.mem_append,
          List.mem_singleton] at hn'
        exact hn'.symm.imp_right hold.mem_iff.mpr

end RoutingTable

end Hgfrr.Kademlia
