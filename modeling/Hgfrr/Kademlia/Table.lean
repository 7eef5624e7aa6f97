import Hgfrr.Kademlia.Depth

/-!
# The routing table

The buckets of a table tile the ids. A node is looked up in the bucket of its id,
and the lookup fails for the one id of each bucket that is its end. Adding a node
splits its bucket until there is room for it or the bucket may not be split, which
ends because there is no depth in a bucket of one bit.
-/

namespace Hgfrr.Kademlia

open Dyadic

variable [Sha3] {node : Node} {bs : List KBucket} {place : Place} {lo hi : ℕ}

/-! ## Looking up a bucket -/

/-- The bucket that is found is one of the table, with the id in its range. -/
theorem bucketByNode_eq_ok (h : bucketByNode node bs = .ok place) :
    bs = place.put [place.bucket] ∧ place.bucket.start ≤ node.id ∧
      node.id < place.bucket.stop := by
  induction bs generalizing place with
  | nil => exact absurd h (by simp [bucketByNode])
  | cons b bs ih =>
      unfold bucketByNode at h
      split at h
      next hlt =>
        split at h
        next hle =>
          obtain rfl := Except.ok.inj h
          exact ⟨rfl, hle, hlt⟩
        next => exact absurd h (by simp)
      next =>
        cases hrest : bucketByNode node bs with
        | error e => exact absurd h (by simp [hrest, Except.map])
        | ok place' =>
            rw [hrest] at h
            obtain rfl := Except.ok.inj h
            obtain ⟨hbs, hle⟩ := ih hrest
            exact ⟨congrArg (b :: ·) hbs, hle⟩

/-- How the search of a bucket may fail. -/
theorem error_of_bucketByNode {e : Error} (h : bucketByNode node bs = .error e) :
    e = .outOfBucket ∨ e = .noBucket := by
  induction bs generalizing e with
  | nil => exact Or.inr (Except.error.inj h).symm
  | cons b bs ih =>
      unfold bucketByNode at h
      split at h
      next =>
        split at h
        next => exact absurd h (by simp)
        next => exact Or.inl (Except.error.inj h).symm
      next =>
        cases hrest : bucketByNode node bs with
        | error e' =>
            rw [hrest] at h
            obtain rfl := Except.error.inj h
            exact ih hrest
        | ok place => exact absurd h (by simp [hrest, Except.map])

/-- The lookup fails only for the end of a bucket. -/
theorem exists_stop_of_error {e : Error} (htiles : Tiles KBucket.start KBucket.stop lo hi bs)
    (hlo : lo ≤ node.id) (hhi : node.id < hi) (h : bucketByNode node bs = .error e) :
    ∃ b ∈ bs, b.stop = node.id := by
  induction bs generalizing lo e with
  | nil =>
      obtain rfl : lo = hi := htiles
      omega
  | cons b bs ih =>
      have hstart := htiles.1
      unfold bucketByNode at h
      split at h
      next =>
        rw [if_pos (by omega)] at h
        exact absurd h (by simp)
      next hge =>
        rcases Nat.eq_or_lt_of_le (Nat.le_of_not_lt hge) with heq | hlt
        · exact ⟨b, List.mem_cons_self, heq⟩
        · cases hrest : bucketByNode node bs with
          | error e' =>
              obtain ⟨b', hb', hstop⟩ := ih htiles.2.2 hlt hrest
              exact ⟨b', List.mem_cons_of_mem _ hb', hstop⟩
          | ok place => exact absurd h (by simp [hrest, Except.map])

/-- No bucket is found for a node whose id ends one. -/
theorem bucketByNode_of_stop {b : KBucket} (htiles : Tiles KBucket.start KBucket.stop lo hi bs)
    (hb : b ∈ bs) (hstop : b.stop = node.id) : bucketByNode node bs ≠ .ok place := by
  intro h
  obtain ⟨hbs, hle, hlt⟩ := bucketByNode_eq_ok h
  rw [hbs] at hb htiles
  have hin : b.start ≤ node.id ∧ node.id ≤ b.stop :=
    ⟨hstop ▸ (htiles.bounds hb).2.1, hstop.ge⟩
  rcases List.mem_append.mp hb with hfront | hback
  · rcases List.mem_append.mp hfront with hmem | hmem
    · exact htiles.not_mem_of_mem ⟨hle, hlt.le⟩ (List.mem_append_left _ hmem) hin
    · rw [List.mem_singleton.mp hmem] at hstop
      omega
  · exact htiles.not_mem_of_mem ⟨hle, hlt.le⟩ (List.mem_append_right _ hback) hin

namespace RoutingTable

/-! ## Well-formed tables -/

structure Wf (t : RoutingTable) : Prop where
  tiles : Tiles KBucket.start KBucket.stop 0 (2 ^ kIdSize) t.buckets
  buckets : ∀ b ∈ t.buckets, b.Wf
  thisNode : t.thisNode ∉ t.nodes

/-- The nodes that wait for room in a bucket. -/
def replacements (t : RoutingTable) : List Node := t.buckets.flatMap KBucket.replacementCache

variable {t : RoutingTable} {now : ℕ}

theorem new_wf : (new node now).Wf where
  tiles := ⟨rfl, Nat.zero_le _, Nat.succ_pred_eq_of_pos (Nat.two_pow_pos kIdSize)⟩
  buckets := by
    intro b hb
    rw [List.mem_singleton.mp hb]
    have hblock : Block kIdSize 0 kMaxNodeId := by
      refine ⟨dvd_zero _, ?_⟩
      rw [Nat.zero_add]
      exact Nat.sub_add_cancel Nat.one_le_two_pow
    exact KBucket.new_wf hblock
  thisNode := List.not_mem_nil

theorem Wf.nodup (h : t.Wf) : t.nodes.Nodup := by
  rw [nodes, List.nodup_flatMap]
  refine ⟨fun b hb => (h.buckets b hb).nodup, ?_⟩
  apply h.tiles.pairwise_lt.imp_of_mem
  intro b b' hb hb' hlt n hn hn'
  have hin := (h.buckets b hb).inRange n hn
  have hin' := (h.buckets b' hb').inRange n hn'
  exact absurd (hin'.1.trans hin.2) hlt.not_ge

omit [Sha3] in
/-- What is in the buckets after those at a place were replaced. -/
theorem flatMap_put_perm {α : Type*} (contents : KBucket → List α) (place : Place)
    (bs : List KBucket) :
    ((place.put bs).flatMap contents).Perm
      ((place.before ++ place.after).flatMap contents ++ bs.flatMap contents) := by
  simp only [Place.put, List.flatMap_append, List.append_assoc]
  exact List.Perm.append_left _ List.perm_append_comm

omit [Sha3] in
/-- The buckets of a table in which one was replaced. -/
theorem forall_mem_put {P : KBucket → Prop} (hplace : t.buckets = place.put [place.bucket])
    (bs : List KBucket) (hothers : ∀ b ∈ t.buckets, b ∈ place.before ++ place.after → P b)
    (hbs : ∀ b ∈ bs, P b) : ∀ b ∈ place.put bs, P b := by
  intro b hb
  rcases List.mem_append.mp hb with hfront | hback
  · rcases List.mem_append.mp hfront with hmem | hmem
    · exact hothers b (by simp [hplace, Place.put, hmem]) (List.mem_append_left _ hmem)
    · exact hbs b hmem
  · exact hothers b (by simp [hplace, Place.put, hback]) (List.mem_append_right _ hback)

/-- A bucket may be replaced by others that tile the same ids. -/
theorem Wf.put (h : t.Wf) (hplace : t.buckets = place.put [place.bucket])
    (htiles : ∀ mid mid', Tiles KBucket.start KBucket.stop mid mid' [place.bucket] →
      Tiles KBucket.start KBucket.stop mid mid' bs)
    (hbs : ∀ b ∈ bs, b.Wf) (hthis : ∀ b ∈ bs, t.thisNode ∉ b.nodes) :
    ({ t with buckets := place.put bs } : RoutingTable).Wf where
  tiles := (hplace ▸ h.tiles).replace htiles
  buckets := forall_mem_put hplace bs (fun b hb _ => h.buckets b hb) hbs
  thisNode := by
    intro hmem
    obtain ⟨b, hb, hnode⟩ := List.mem_flatMap.mp hmem
    have hnone : ∀ b ∈ place.put bs, t.thisNode ∉ b.nodes :=
      forall_mem_put hplace bs
        (fun b hb _ hnode => h.thisNode (List.mem_flatMap.mpr ⟨b, hb, hnode⟩)) hthis
    exact hnone b hb hnode

omit [Sha3] in
theorem tiles_singleton {b b' : KBucket} (hstart : b'.start = b.start) (hstop : b'.stop = b.stop)
    {mid mid' : ℕ} (h : Tiles KBucket.start KBucket.stop mid mid' [b]) :
    Tiles KBucket.start KBucket.stop mid mid' [b'] := by
  unfold Tiles at h ⊢
  rw [hstart, hstop]
  exact h

end RoutingTable

end Hgfrr.Kademlia
