import Hgfrr.Kademlia.Table

/-!
# The nodes nearest to an id

Buckets are visited by the distance of their middle ids. As the buckets are
disjoint blocks this is the order of any of their nodes, so the short list holds
the nearest nodes although it leaves out the rest of one bucket.
-/

namespace Hgfrr.Kademlia

open SortedBy Dyadic

namespace RoutingTable

/-! ## The short list -/

variable {limit : ℕ} {nodes : List Node}

theorem take_append_congr {α : Type*} {left right : List α} {n : ℕ}
    (h : left.take n = right.take n) (rest : List α) :
    (left ++ rest).take n = (right ++ rest).take n := by
  have hlength := congrArg List.length h
  rw [List.length_take, List.length_take] at hlength
  rcases Nat.lt_or_ge left.length n with hlt | hge
  · rw [List.take_of_length_le hlt.le, List.take_of_length_le (by omega)] at h
    rw [h]
  · rw [List.take_append_of_le_length hge, List.take_append_of_le_length (by omega), h]

theorem collect_spec (limit : ℕ) (nodes rest : List Node) :
    ∃ part, collect limit nodes rest = nodes ++ part ∧ part.Sublist rest ∧
      (nodes ++ part).take limit = (nodes ++ rest).take limit := by
  induction rest generalizing nodes with
  | nil => exact ⟨[], by simp [collect], List.Sublist.refl _, rfl⟩
  | cons n rest ih =>
      unfold collect
      split
      next hlimit =>
        refine ⟨[n], rfl, by simp, ?_⟩
        rw [List.take_of_length_le hlimit.le, ← hlimit, List.append_cons nodes n rest,
          List.take_left]
      next =>
        obtain ⟨part, heq, hsub, htake⟩ := ih (nodes ++ [n])
        rw [List.append_assoc, List.append_assoc, List.singleton_append] at htake
        exact ⟨n :: part, by simp [heq], hsub.cons_cons n, htake⟩

/-- The short list is part of the whole one, and begins as it does. -/
theorem foldl_collect_spec {β : Type*} (limit : ℕ) (contents : β → List Node) (parts : List β)
    (nodes : List Node) :
    ∃ part, parts.foldl (fun nodes b => collect limit nodes (contents b)) nodes = nodes ++ part ∧
      part.Sublist (parts.flatMap contents) ∧
      (nodes ++ part).take limit = (nodes ++ parts.flatMap contents).take limit := by
  induction parts generalizing nodes with
  | nil => exact ⟨[], by simp, List.Sublist.refl _, rfl⟩
  | cons b parts ih =>
      obtain ⟨part, heq, hsub, htake⟩ := collect_spec limit nodes (contents b)
      obtain ⟨part', heq', hsub', htake'⟩ := ih (nodes ++ part)
      refine ⟨part ++ part', ?_, hsub.append hsub', ?_⟩
      · rw [List.foldl_cons, heq, heq', List.append_assoc]
      · rw [← List.append_assoc, htake', List.flatMap_cons, ← List.append_assoc]
        exact take_append_congr htake _

/-! ## The nearest nodes -/

variable [Sha3] {t : RoutingTable}

/-- Buckets by the distance of their middle are buckets by the distance of their
nodes. -/
theorem Wf.pairwise_bucketsByIdDistance (h : t.Wf) (id : ℕ) :
    (t.bucketsByIdDistance id).Pairwise fun b b' =>
      ∀ x ∈ b.nodes, ∀ y ∈ b'.nodes, x.idDistance id < y.idDistance id := by
  have hdisjoint : (t.bucketsByIdDistance id).Pairwise fun b b' =>
      b.stop < b'.start ∨ b'.stop < b.start :=
    (sortBy_perm.pairwise_iff Or.symm).mpr (h.tiles.pairwise_lt.imp Or.inl)
  refine (hdisjoint.and pairwise_sortBy).imp_of_mem ?_
  rintro b b' hb hb' ⟨hdisjoint, hle⟩ x hx y hy
  have hwf := h.buckets b (mem_sortBy.mp hb)
  have hwf' := h.buckets b' (mem_sortBy.mp hb')
  obtain ⟨bits, hblock⟩ := hwf.block
  obtain ⟨bits', hblock'⟩ := hwf'.block
  have hmid := hblock.first_le_midpoint
  have hmid' := hblock'.first_le_midpoint
  rw [Node.idDistance, Node.idDistance, xor_lt_xor_iff hblock hblock' hdisjoint (hwf.inRange x hx)
    hmid (hwf'.inRange y hy) hmid']
  apply lt_of_le_of_ne hle
  intro heq
  have hmidpoint : b.midpoint = b'.midpoint := Nat.xor_left_injective heq
  have hbounds : b.start ≤ b.midpoint ∧ b.midpoint ≤ b.stop := hmid
  have hbounds' : b'.start ≤ b'.midpoint ∧ b'.midpoint ≤ b'.stop := hmid'
  omega

/-- The nodes found are the first of all nodes by distance. -/
theorem Wf.neighbours_eq (h : t.Wf) (id k : ℕ) :
    t.neighbours id k = (sortBy (Node.idDistance id) t.nodes).take k := by
  have hperm : (t.bucketsByIdDistance id).Perm t.buckets := sortBy_perm
  have hall := sortBy_flatMap hperm (h.pairwise_bucketsByIdDistance id)
  obtain ⟨part, heq, hsub, htake⟩ := foldl_collect_spec (k * 2)
    (fun b => b.nodesByIdDistance id) (t.bucketsByIdDistance id) []
  rw [List.nil_append] at heq htake
  rw [neighbours, heq, nodes, hall]
  exact take_sortBy_of_sublist (hall ▸ pairwise_sortBy) hsub htake
    (Nat.le_mul_of_pos_right k two_pos)

/-- The short list agrees with comparing all nodes. -/
theorem Wf.neighbours_filter (h : t.Wf) (id k distance : ℕ) :
    (t.neighbours id k).filter (fun n => n.idDistance id ≤ distance) =
      (t.neighboursWithinDistance id distance).take k := by
  rw [h.neighbours_eq, filter_take_of_pairwise pairwise_sortBy, neighboursWithinDistance,
    sortBy_filter]

theorem Wf.mem_of_mem_neighbours (h : t.Wf) {id k : ℕ} {n : Node} (hn : n ∈ t.neighbours id k) :
    n ∈ t.nodes := by
  rw [h.neighbours_eq] at hn
  exact mem_sortBy.mp (List.mem_of_mem_take hn)

/-- The first node found is one of the nearest. -/
theorem Wf.le_of_head_neighbours (h : t.Wf) {id k : ℕ} {n m : Node}
    (hn : (t.neighbours id (k + 1)).head? = some n) (hm : m ∈ t.nodes) :
    n.idDistance id ≤ m.idDistance id := by
  rw [h.neighbours_eq, List.head?_take, if_neg (Nat.succ_ne_zero k)] at hn
  exact le_of_head_sortBy hn hm

/-- Nothing is found only if there is no node. -/
theorem Wf.nodes_eq_nil (h : t.Wf) {id k : ℕ} (hn : (t.neighbours id (k + 1)).head? = none) :
    t.nodes = [] := by
  rw [h.neighbours_eq, List.head?_take, if_neg (Nat.succ_ne_zero k), List.head?_eq_none_iff] at hn
  exact (hn ▸ sortBy_perm).nil_eq.symm

end RoutingTable

end Hgfrr.Kademlia
