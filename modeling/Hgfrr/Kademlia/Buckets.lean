import Hgfrr.Foundation.Dyadic
import Hgfrr.Model.Kademlia

/-!
# Buckets

A bucket is for the ids of a dyadic block and holds at most `kBucketSize` nodes
of it. Halving the block halves the bucket: every node goes to the half that its
id is in.
-/

namespace Hgfrr.Kademlia

open SortedBy Dyadic

namespace KBucket

variable {b : KBucket} {node : Node} {now : ℕ}

/-! ## Adding -/

/-- A node that is known moves to the end, a new one goes there if there is room, and
the head of a full bucket is returned otherwise. -/
theorem addNode_cases (b : KBucket) (node : Node) (now : ℕ) :
    (node ∈ b.nodes ∧
      b.addNode node now =
        ({ b with nodes := b.nodes.erase node ++ [node], lastUpdated := now }, none)) ∨
    (node ∉ b.nodes ∧ b.nodes.length < kBucketSize ∧
      b.addNode node now = ({ b with nodes := b.nodes ++ [node], lastUpdated := now }, none)) ∨
    (node ∉ b.nodes ∧ kBucketSize ≤ b.nodes.length ∧
      b.addNode node now = ({ b with lastUpdated := now }, b.nodes.head?)) := by
  unfold addNode
  by_cases hmem : node ∈ b.nodes
  · exact Or.inl ⟨hmem, if_pos hmem⟩
  · by_cases hlt : b.nodes.length < kBucketSize
    · exact Or.inr (Or.inl ⟨hmem, hlt, by simp [hmem, hlt]⟩)
    · exact Or.inr (Or.inr ⟨hmem, Nat.le_of_not_lt hlt, by simp [hmem, hlt]⟩)

/-- A new node goes to the end. -/
theorem addNode_of_room (hnot : node ∉ b.nodes) (hlt : b.nodes.length < kBucketSize) :
    b.addNode node now = ({ b with nodes := b.nodes ++ [node], lastUpdated := now }, none) := by
  rcases addNode_cases b node now with ⟨h, _⟩ | ⟨_, _, h⟩ | ⟨_, h, _⟩
  · exact absurd h hnot
  · exact h
  · exact absurd hlt h.not_gt

/-- The nodes of a bucket after a node was put at its tail. -/
theorem addNode_eq_none {b' : KBucket} (h : b.addNode node now = (b', none)) :
    b'.nodes = b.nodes.erase node ++ [node] ∧ b'.start = b.start ∧ b'.stop = b.stop ∧
      b'.replacementCache = b.replacementCache := by
  rcases addNode_cases b node now with ⟨_, heq⟩ | ⟨hnot, _, heq⟩ | ⟨_, hle, heq⟩
  · obtain ⟨rfl, -⟩ := Prod.mk.inj (heq.symm.trans h)
    exact ⟨rfl, rfl, rfl, rfl⟩
  · obtain ⟨rfl, -⟩ := Prod.mk.inj (heq.symm.trans h)
    exact ⟨by rw [List.erase_of_not_mem hnot], rfl, rfl, rfl⟩
  · obtain ⟨-, hnone⟩ := Prod.mk.inj (heq.symm.trans h)
    rw [List.head?_eq_none_iff.mp hnone] at hle
    exact absurd hle (by decide)

/-- A node is not added to a full bucket, whose head is given back. -/
theorem addNode_eq_some {b' : KBucket} {candidate : Node}
    (h : b.addNode node now = (b', some candidate)) :
    node ∉ b.nodes ∧ kBucketSize ≤ b.nodes.length ∧ b.nodes.head? = some candidate ∧
      b' = { b with lastUpdated := now } := by
  rcases addNode_cases b node now with ⟨_, heq⟩ | ⟨_, _, heq⟩ | ⟨hnot, hle, heq⟩
  · exact absurd (Prod.mk.inj (heq.symm.trans h)).2 (by simp)
  · exact absurd (Prod.mk.inj (heq.symm.trans h)).2 (by simp)
  · obtain ⟨hb, hhead⟩ := Prod.mk.inj (heq.symm.trans h)
    exact ⟨hnot, hle, hhead, hb.symm⟩

/-! ## Well-formed buckets -/

variable [Sha3]

structure Wf (b : KBucket) : Prop where
  block : ∃ bits, Block bits b.start b.stop
  inRange : ∀ node ∈ b.nodes, b.inRange node
  replacements : ∀ node ∈ b.replacementCache, b.inRange node
  nodup : b.nodes.Nodup
  length_le : b.nodes.length ≤ kBucketSize

/-- A new bucket over a block is well formed. -/
theorem new_wf {start stop bits : ℕ} (h : Block bits start stop) : (new now start stop).Wf where
  block := ⟨bits, h⟩
  inRange := fun _ hmem => absurd hmem List.not_mem_nil
  replacements := fun _ hmem => absurd hmem List.not_mem_nil
  nodup := List.nodup_nil
  length_le := Nat.zero_le _

/-- The time of the last update does not matter. -/
theorem Wf.touch (h : b.Wf) (now : ℕ) : ({ b with lastUpdated := now } : KBucket).Wf :=
  ⟨h.block, h.inRange, h.replacements, h.nodup, h.length_le⟩

theorem removeNode_wf (h : b.Wf) : (b.removeNode node).Wf where
  block := h.block
  inRange := fun n hn => h.inRange n (List.mem_of_mem_erase hn)
  replacements := h.replacements
  nodup := h.nodup.erase node
  length_le := (List.length_erase_le).trans h.length_le

/-- A well-formed bucket stays so when a node of its range is added. -/
theorem addNode_wf (h : b.Wf) (hnode : b.inRange node) (now : ℕ) : (b.addNode node now).1.Wf := by
  rcases addNode_cases b node now with ⟨hmem, heq⟩ | ⟨hnot, hlt, heq⟩ | ⟨_, _, heq⟩ <;> rw [heq]
  · have hperm : (b.nodes.erase node ++ [node]).Perm b.nodes :=
      (List.perm_append_singleton _ _).trans (List.perm_cons_erase hmem).symm
    exact ⟨h.block, fun n hn => h.inRange n (hperm.subset hn), h.replacements,
      hperm.nodup_iff.mpr h.nodup, hperm.length_eq ▸ h.length_le⟩
  · refine ⟨h.block, ?_, h.replacements, List.concat_eq_append ▸ h.nodup.concat hnot, ?_⟩
    · intro n hn
      rcases List.mem_append.mp hn with hn | hn
      · exact h.inRange n hn
      · exact List.mem_singleton.mp hn ▸ hnode
    · rw [List.length_append, List.length_singleton]
      exact hlt
  · exact h.touch now

/-! ## Splitting -/

/-- The halves that a bucket is split into, with their nodes and replacements. -/
def lowerHalf (b : KBucket) (now : ℕ) : KBucket where
  start := b.start
  stop := b.midpoint
  nodes := b.nodes.filter fun n => n.id ≤ b.midpoint
  replacementCache := b.replacementCache.filter fun n => n.id ≤ b.midpoint
  lastUpdated := now

def upperHalf (b : KBucket) (now : ℕ) : KBucket where
  start := b.midpoint + 1
  stop := b.stop
  nodes := b.nodes.filter fun n => b.midpoint < n.id
  replacementCache := b.replacementCache.filter fun n => b.midpoint < n.id
  lastUpdated := now

/-- The loop that distributes the nodes fills both halves in order. -/
theorem foldl_distribute {splitid : ℕ} {nodes : List Node} {lower upper : KBucket}
    (hlower : (lower.nodes ++ nodes).Nodup) (hupper : (upper.nodes ++ nodes).Nodup)
    (hlength : lower.nodes.length + nodes.length ≤ kBucketSize)
    (hlength' : upper.nodes.length + nodes.length ≤ kBucketSize)
    (hnow : lower.lastUpdated = now) (hnow' : upper.lastUpdated = now) :
    nodes.foldl (distribute now splitid) (lower, upper) =
      ({ lower with nodes := lower.nodes ++ nodes.filter fun n => n.id ≤ splitid },
        { upper with nodes := upper.nodes ++ nodes.filter fun n => splitid < n.id }) := by
  induction nodes generalizing lower upper with
  | nil => simp
  | cons node nodes ih =>
      have hnot := fun hmem => (List.nodup_append.mp hlower).2.2 node hmem node (by simp) rfl
      have hnot' := fun hmem => (List.nodup_append.mp hupper).2.2 node hmem node (by simp) rfl
      have hskip : ∀ front : List Node, (front ++ node :: nodes).Nodup → (front ++ nodes).Nodup :=
        fun front h => h.sublist ((List.sublist_cons_self node nodes).append_left front)
      rw [List.length_cons] at hlength hlength'
      rw [List.foldl_cons, distribute]
      by_cases hle : node.id ≤ splitid
      · rw [if_pos hle, addNode_of_room hnot (by omega),
          ih (by simpa using hlower) (hskip _ hupper) (by simp; omega) (by omega) rfl hnow']
        simp [hle, hnow]
      · rw [if_neg hle, addNode_of_room hnot' (by omega),
          ih (hskip _ hlower) (by simpa using hupper) (by omega) (by simp; omega) hnow rfl]
        simp [Nat.lt_of_not_le hle, hnow']

theorem foldl_distributeReplacement {splitid : ℕ} {nodes : List Node} {lower upper : KBucket} :
    nodes.foldl (distributeReplacement splitid) (lower, upper) =
      ({ lower with replacementCache :=
          lower.replacementCache ++ nodes.filter fun n => n.id ≤ splitid },
        { upper with replacementCache :=
          upper.replacementCache ++ nodes.filter fun n => splitid < n.id }) := by
  induction nodes generalizing lower upper with
  | nil => simp
  | cons node nodes ih =>
      rw [List.foldl_cons, distributeReplacement]
      by_cases hle : node.id ≤ splitid
      · rw [if_pos hle, ih]
        simp [hle]
      · rw [if_neg hle, ih]
        simp [Nat.lt_of_not_le hle]

/-- Splitting gives the two halves. -/
theorem split_eq (h : b.Wf) : b.split now = (b.lowerHalf now, b.upperHalf now) := by
  have hlength : ([] : List Node).length + b.nodes.length ≤ kBucketSize :=
    (Nat.zero_add _).trans_le h.length_le
  have hdistribute : b.nodes.foldl (distribute now b.midpoint)
      (new now b.start b.midpoint, new now (b.midpoint + 1) b.stop) = _ :=
    foldl_distribute h.nodup h.nodup hlength hlength rfl rfl
  rw [split, hdistribute, foldl_distributeReplacement]
  rfl

theorem lowerHalf_wf {bits : ℕ} (h : b.Wf) (hblock : Block (bits + 1) b.start b.stop) :
    (b.lowerHalf now).Wf where
  block := ⟨bits, hblock.lower⟩
  inRange := by
    intro n hn
    rw [lowerHalf, List.mem_filter, decide_eq_true_eq] at hn
    exact ⟨(h.inRange n hn.1).1, hn.2⟩
  replacements := by
    intro n hn
    rw [lowerHalf, List.mem_filter, decide_eq_true_eq] at hn
    exact ⟨(h.replacements n hn.1).1, hn.2⟩
  nodup := h.nodup.filter _
  length_le := (List.length_filter_le _ _).trans h.length_le

theorem upperHalf_wf {bits : ℕ} (h : b.Wf) (hblock : Block (bits + 1) b.start b.stop) :
    (b.upperHalf now).Wf where
  block := ⟨bits, hblock.upper⟩
  inRange := by
    intro n hn
    rw [upperHalf, List.mem_filter, decide_eq_true_eq] at hn
    exact ⟨hn.2, (h.inRange n hn.1).2⟩
  replacements := by
    intro n hn
    rw [upperHalf, List.mem_filter, decide_eq_true_eq] at hn
    exact ⟨hn.2, (h.replacements n hn.1).2⟩
  nodup := h.nodup.filter _
  length_le := (List.length_filter_le _ _).trans h.length_le

/-- Nodes of a half or of the other are those of the whole. -/
theorem filter_halves_perm (b : KBucket) (nodes : List Node) :
    (nodes.filter (fun n => n.id ≤ b.midpoint) ++
      nodes.filter fun n => b.midpoint < n.id).Perm nodes := by
  have hupper : (nodes.filter fun n => b.midpoint < n.id) =
      nodes.filter fun n => !decide (n.id ≤ b.midpoint) :=
    List.filter_congr fun n _ => by rw [← decide_not, decide_eq_decide, not_le]
  rw [hupper]
  exact List.filter_append_perm _ nodes

/-- No node is lost in a split. -/
theorem nodes_halves_perm (b : KBucket) (now : ℕ) :
    ((b.lowerHalf now).nodes ++ (b.upperHalf now).nodes).Perm b.nodes :=
  b.filter_halves_perm b.nodes

/-- No replacement is lost in a split. -/
theorem replacements_halves_perm (b : KBucket) (now : ℕ) :
    ((b.lowerHalf now).replacementCache ++ (b.upperHalf now).replacementCache).Perm
      b.replacementCache :=
  b.filter_halves_perm b.replacementCache

end KBucket

end Hgfrr.Kademlia
