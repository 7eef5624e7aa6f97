import Hgfrr.Kademlia.Buckets

/-!
# The depth of a bucket

The depth is found by comparing longer and longer beginnings of the ids as binary
texts. It is the number of bits that the ids of the bucket share, and there is
none if they share all bits but the last.
-/

namespace Hgfrr.Kademlia

open Dyadic

/-- One item is left when all are equal. -/
theorem length_dedup_eq_one_iff {α : Type*} [DecidableEq α] {items : List α} (hne : items ≠ []) :
    items.dedup.length = 1 ↔ ∀ a ∈ items, ∀ b ∈ items, a = b := by
  constructor
  · intro h a ha b hb
    obtain ⟨c, hc⟩ := List.length_eq_one_iff.mp h
    rw [← List.mem_dedup, hc, List.mem_singleton] at ha hb
    exact ha.trans hb.symm
  · intro h
    obtain ⟨a, ha⟩ := List.exists_mem_of_ne_nil items hne
    have hall : items.dedup = [a] := by
      apply List.Perm.eq_singleton
      rw [List.perm_ext_iff_of_nodup (List.nodup_dedup items) (List.nodup_singleton a)]
      intro b
      rw [List.mem_dedup, List.mem_singleton]
      exact ⟨fun hb => h b hb a ha, fun heq => heq ▸ ha⟩
    rw [hall, List.length_singleton]

/-! ## The depth -/

variable [Sha3]

namespace KBucket

/-- The nodes have their first `i` bits in common. -/
def Shares (b : KBucket) (i : ℕ) : Prop :=
  ∀ n ∈ b.nodes, ∀ m ∈ b.nodes, n.id / 2 ^ (kIdSize - i) = m.id / 2 ^ (kIdSize - i)

variable {b : KBucket} {d i j bits : ℕ}

theorem Shares.mono (h : b.Shares i) (hle : j ≤ i) : b.Shares j := by
  intro n hn m hm
  have hpow : 2 ^ (kIdSize - j) = 2 ^ (kIdSize - i) * 2 ^ (kIdSize - j - (kIdSize - i)) := by
    rw [← pow_add, Nat.add_sub_cancel' (Nat.sub_le_sub_left hle _)]
  rw [hpow, ← Nat.div_div_eq_div_mul, h n hn m hm, Nat.div_div_eq_div_mul]

theorem id_lt (node : Node) : node.id < 2 ^ kIdSize :=
  Nat.lt_of_le_pred (Nat.two_pow_pos _) node.id_le

/-- The beginnings of the binary texts are one text when the ids share these bits. -/
theorem shares_iff (hne : b.nodes ≠ []) (hi : i ≤ kIdSize) :
    ((b.nodes.map fun n => toBinary n.id).map (·.take i)).dedup.length = 1 ↔ b.Shares i := by
  rw [length_dedup_eq_one_iff (by simpa using hne)]
  simp only [List.forall_mem_map]
  exact forall₂_congr fun n _ => forall₂_congr fun m _ =>
    take_binary_eq_iff hi (id_lt n) (id_lt m)

/-- The depth is the number of leading bits that the ids share. -/
theorem depth_eq_ok_iff (htwo : 2 ≤ b.nodes.length) :
    b.depth = .ok d ↔ d + 1 < kIdSize ∧ b.Shares d ∧ ¬ b.Shares (d + 1) := by
  have hne : b.nodes ≠ [] := by
    intro hnil
    rw [hnil] at htwo
    exact absurd htwo (by decide)
  have hfirst : b.Shares 0 := by
    intro n _ m _
    rw [Nat.sub_zero, Nat.div_eq_of_lt (id_lt n), Nat.div_eq_of_lt (id_lt m)]
  rw [depth, if_neg htwo.not_gt]
  constructor
  · intro h
    dsimp only at h
    split at h
    next i hfind =>
      obtain rfl := Except.ok.inj h
      obtain ⟨hi, hmem, hbefore⟩ := List.find?_range_eq_some.mp hfind
      have hlt := List.mem_range.mp hmem
      rw [decide_eq_true_eq, ne_eq, shares_iff hne hlt.le] at hi
      cases i with
      | zero => exact absurd hfirst hi
      | succ i =>
          -- the index that is found is the length of the first prefix in which the ids differ
          have hprev := hbefore i (Nat.lt_succ_self i)
          simp only [ne_eq, decide_not, Bool.not_not, decide_eq_true_eq] at hprev
          exact ⟨hlt, (shares_iff hne (Nat.le_of_succ_le hlt.le)).mp hprev, hi⟩
    next => exact absurd h (by simp)
  · rintro ⟨hlt, hshares, hnot⟩
    have hfind : (List.range kIdSize).find? (fun i =>
        ((b.nodes.map fun n => toBinary n.id).map (·.take i)).dedup.length ≠ 1) = some (d + 1) := by
      rw [List.find?_range_eq_some]
      refine ⟨?_, List.mem_range.mpr hlt, ?_⟩
      · rwa [decide_eq_true_eq, ne_eq, shares_iff hne hlt.le]
      · intro j hj
        simp only [ne_eq, decide_not, Bool.not_not, decide_eq_true_eq]
        exact (shares_iff hne (by omega)).mpr (hshares.mono (Nat.le_of_lt_succ hj))
    dsimp only
    rw [hfind]
    rfl

/-- The ids of a block of at most two have no depth. -/
theorem depth_ne_ok (h : b.Wf) (hblock : Block bits b.start b.stop) (hbits : bits ≤ 1)
    (htwo : 2 ≤ b.nodes.length) : b.depth ≠ .ok d := by
  intro hok
  obtain ⟨hlt, -, hnot⟩ := (depth_eq_ok_iff htwo).mp hok
  apply hnot
  intro n hn m hm
  have hle : bits ≤ kIdSize - (d + 1) := by omega
  have hn' := h.inRange n hn
  have hm' := h.inRange m hm
  rw [hblock.div_eq hle hn'.1 hn'.2, hblock.div_eq hle hm'.1 hm'.2]

/-- There is no depth if the ids share all bits but the last. -/
theorem depth_eq_error {e : Error} (h : b.depth = .error e) :
    e = .noDepth ∧ b.Shares (kIdSize - 1) := by
  unfold depth at h
  split at h
  next => exact absurd h (by simp)
  next htwo =>
    have hne : b.nodes ≠ [] := by
      intro hnil
      rw [hnil] at htwo
      exact htwo (by decide)
    dsimp only at h
    split at h
    next => exact absurd h (by simp)
    next hfind =>
      refine ⟨(Except.error.inj h).symm, ?_⟩
      have hlast := List.find?_range_eq_none.mp hfind (kIdSize - 1) (by decide)
      simp only [ne_eq, decide_not, Bool.not_not, decide_eq_true_eq] at hlast
      exact (shares_iff hne (Nat.sub_le _ _)).mp hlast

end KBucket

end Hgfrr.Kademlia
