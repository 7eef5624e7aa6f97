import Mathlib

/-!
# The tree of powers

The numbers below `size` form a tree with root `0` in which the children of
`order` are the sums `order + base ^ i` with `order < base ^ i`. For base two
the parent of a number is the number without its leading bit, so every
positive number has exactly one parent.
-/

namespace PowerTree

/-- The exponents that lead from `order` to its children below `size`. -/
def exponents (base order size : ℕ) : List ℕ :=
  (List.range size).filter fun i => order < base ^ i ∧ order + base ^ i < size

theorem mem_exponents {base order size i : ℕ} (hbase : 2 ≤ base) :
    i ∈ exponents base order size ↔ order < base ^ i ∧ order + base ^ i < size := by
  simp only [exponents, List.mem_filter, List.mem_range, decide_eq_true_eq,
    and_iff_right_iff_imp]
  intro h
  have hlt : i < base ^ i := Nat.lt_pow_self hbase
  omega

theorem nodup_exponents (base order size : ℕ) : (exponents base order size).Nodup :=
  List.nodup_range.filter _

/-- Different exponents lead to different children. -/
theorem child_injective {base order i j : ℕ} (hbase : 2 ≤ base)
    (h : order + base ^ i = order + base ^ j) : i = j :=
  Nat.pow_right_injective hbase (Nat.add_left_cancel h)

/-- Base two: the exponent that leads to a child is the child's leading bit. -/
theorem log2_child {order i : ℕ} (h : order < 2 ^ i) : Nat.log2 (order + 2 ^ i) = i := by
  rw [Nat.log2_eq_iff (by have := Nat.two_pow_pos i; omega)]
  rw [Nat.pow_succ]
  omega

/-- Base two: a number is the child of one number only. -/
theorem parent_unique {order order' i j : ℕ} (h : order < 2 ^ i) (h' : order' < 2 ^ j)
    (heq : order + 2 ^ i = order' + 2 ^ j) : order = order' ∧ i = j := by
  have hij : i = j := by rw [← log2_child h, heq, log2_child h']
  subst hij
  exact ⟨Nat.add_right_cancel heq, rfl⟩

/-- Base two: every positive number is a child. -/
theorem exists_parent {m : ℕ} (hm : 0 < m) : ∃ order i, order < 2 ^ i ∧ order + 2 ^ i = m := by
  have hlow : 2 ^ Nat.log2 m ≤ m := Nat.log2_self_le (by omega)
  have hhigh : m < 2 ^ (Nat.log2 m + 1) := Nat.lt_log2_self
  rw [Nat.pow_succ] at hhigh
  exact ⟨m - 2 ^ Nat.log2 m, Nat.log2 m, by omega, by omega⟩

/-- Go through the binary tree from the children of the root downwards. -/
@[elab_as_elim]
theorem induction {motive : ∀ m : ℕ, 0 < m → Prop}
    (root : ∀ i, motive (2 ^ i) (Nat.two_pow_pos i))
    (child : ∀ order i (hpos : 0 < order), order < 2 ^ i → motive order hpos →
      motive (order + 2 ^ i) (Nat.add_pos_left hpos _))
    (m : ℕ) (hm : 0 < m) : motive m hm := by
  induction m using Nat.strong_induction_on with
  | _ m ih =>
      obtain ⟨order, i, hlt, rfl⟩ := exists_parent hm
      have hpow := Nat.two_pow_pos i
      rcases Nat.eq_zero_or_pos order with rfl | hpos
      · simpa using root i
      · exact child order i hpos hlt (ih order (by omega) hpos)

/-- A child has more binary digits than its parent. -/
theorem log2_lt_log2_child {order i : ℕ} (hpos : 0 < order) (h : order < 2 ^ i) :
    Nat.log2 order < Nat.log2 (order + 2 ^ i) := by
  rw [log2_child h]
  exact (Nat.log2_lt (by omega)).mpr h

theorem log2_lt_clog {m n : ℕ} (hm : 0 < m) (hn : m < n) : Nat.log2 m + 1 ≤ Nat.clog 2 n := by
  rw [Nat.succ_le_iff, Nat.lt_clog_iff_pow_lt (by omega)]
  exact (Nat.log2_self_le (by omega)).trans_lt hn

end PowerTree
