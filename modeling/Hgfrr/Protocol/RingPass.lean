import Hgfrr.Model.PeerManager
import Hgfrr.Overlay.Basic

/-!
# One pass over a ring

What `broadcast_within_ring` does when the node's tables are in order: the loop
over powers of two ends, every position it computes lies in the peer list, and
the sends are those of a pass over the ring in the overlay of the tables.
-/

namespace Hgfrr

section Steps

variable {k n order vectorId : ℕ}

/-- The step that the loop makes for an exponent. -/
def ringStep (k n order : ℕ) (vectorId : ℤ) (i : ℕ) : RingStep :=
  ⟨order + (k : ℤ) ^ i, wrapTarget vectorId ((k : ℤ) ^ i) ((n : ℤ) - 1)⟩

/-- Enough fuel carries the loop to its end. -/
theorem ringSteps_eq (hk : 2 ≤ k) (vectorId : ℤ) (fuel i : ℕ) (hfuel : 0 < fuel)
    (hn : n - order ≤ i + fuel) :
    ringSteps ((n : ℤ) - 1) order vectorId k fuel i =
      .ok (((List.range' i fuel).filter fun j => order < k ^ j ∧ order + k ^ j < n).map
        (ringStep k n order vectorId)) := by
  induction fuel generalizing i with
  | zero => omega
  | succ fuel ih =>
      have hpow : i < k ^ i := Nat.lt_pow_self (by omega)
      have hcond : ((order : ℤ) + (k : ℤ) ^ i ≤ (n : ℤ) - 1) ↔ order + k ^ i < n := by
        constructor <;> intro h <;> zify at * <;> omega
      have hskip : ((k : ℤ) ^ i ≤ (order : ℤ)) ↔ ¬ order < k ^ i := by
        constructor <;> intro h <;> zify at * <;> omega
      rw [ringSteps, List.range'_succ, List.filter_cons]
      simp only [hcond, hskip, decide_eq_true_eq]
      by_cases hsize : order + k ^ i < n
      · have hrest := ih (i + 1) (by omega) (by omega)
        rw [if_pos hsize, hrest]
        by_cases horder : order < k ^ i
        · rw [if_neg (not_not.mpr horder), if_pos ⟨horder, hsize⟩]
          rfl
        · rw [if_pos horder, if_neg fun h => horder h.1]
      · rw [if_neg hsize, if_neg fun h => hsize h.2]
        have hnone : ((List.range' (i + 1) fuel).filter
            fun j => order < k ^ j ∧ order + k ^ j < n) = [] := by
          rw [List.filter_eq_nil_iff]
          intro j hj hboth
          have hle : k ^ i ≤ k ^ j :=
            Nat.pow_le_pow_right (by omega) (by have := (List.mem_range'_1.mp hj).1; omega)
          have := (of_decide_eq_true hboth).2
          omega
        rw [hnone]
        rfl

/-- The exponents of the loop are those of the tree. -/
theorem filter_range_eq_exponents (hk : 2 ≤ k) :
    ((List.range' 0 (((n : ℤ) - 1 - order).toNat + 1)).filter
      fun j => order < k ^ j ∧ order + k ^ j < n) = PowerTree.exponents k order n := by
  rw [PowerTree.exponents, ← List.range_eq_range']
  have hshort : ∀ a b, n - order ≤ a → a ≤ b →
      (List.range b).filter (fun j => order < k ^ j ∧ order + k ^ j < n) =
        (List.range a).filter (fun j => order < k ^ j ∧ order + k ^ j < n) := by
    intro a b ha hab
    obtain ⟨c, rfl⟩ := Nat.exists_eq_add_of_le hab
    rw [List.range_add, List.filter_append, List.append_right_eq_self, List.filter_eq_nil_iff]
    intro j hj hboth
    obtain ⟨d, _, rfl⟩ := List.mem_map.mp hj
    have hpow : a + d < k ^ (a + d) := Nat.lt_pow_self (by omega)
    have := (of_decide_eq_true hboth).2
    omega
  have hlen : n - order ≤ ((n : ℤ) - 1 - order).toNat + 1 := by omega
  rcases Nat.le_total n (((n : ℤ) - 1 - order).toNat + 1) with hle | hle
  · exact hshort _ _ (by omega) hle
  · exact (hshort _ _ hlen hle).symm

theorem ringSteps_eq_exponents (hk : 2 ≤ k) (vectorId : ℤ) :
    ringSteps ((n : ℤ) - 1) order vectorId k (((n : ℤ) - 1 - order).toNat + 1) 0 =
      .ok ((PowerTree.exponents k order n).map (ringStep k n order vectorId)) := by
  rw [ringSteps_eq hk vectorId _ 0 (by omega) (by omega), filter_range_eq_exponents hk]

/-- A single wrap-around brings every position of the loop into the list. -/
theorem wrapTarget_eq {place : ℤ} (hlow : -1 ≤ place) (hhigh : place < n) {step : ℕ}
    (hpos : 0 < step) (hstep : step < n) :
    wrapTarget place step ((n : ℤ) - 1) = (place + step) % n ∧
      0 ≤ wrapTarget place step ((n : ℤ) - 1) ∧ wrapTarget place step ((n : ℤ) - 1) < n := by
  have hrange : 0 ≤ wrapTarget place step ((n : ℤ) - 1) ∧
      wrapTarget place step ((n : ℤ) - 1) < n := by
    unfold wrapTarget
    split <;> constructor <;> omega
  refine ⟨?_, hrange⟩
  rw [← Int.emod_eq_of_lt hrange.1 hrange.2]
  unfold wrapTarget
  split
  next =>
    rw [show place + step - ((n : ℤ) - 1 + 1) = place + step - n by omega, Int.sub_emod_right]
  next => rfl

end Steps

/-- The position that the source looks up is the place in the overlay. -/
theorem place_eq (peerIds : List Str) (id : Str) :
    (if id ∈ peerIds then (peerIds.idxOf id : ℤ) else -1) = Overlay.place peerIds id := by
  unfold Overlay.place
  congr! 3
  exact lawful_beq_subsingleton _ _

end Hgfrr
