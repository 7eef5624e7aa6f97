import Mathlib

/-!
# Mixed radix numerals

A number has one digit for each radix, the lowest first. Combining the digits
with weights gives the number back exactly if every radix that allows more than
one digit has the product of the radices below it as its weight.
-/

namespace MixedRadix

/-- The digits of a number, lowest first. -/
def digits : List ℕ → ℕ → List ℕ
  | [], _ => []
  | radix :: radices, n => n % radix :: digits radices (n / radix)

/-- The digits combined with weights. -/
def combine : List ℕ → List ℕ → ℕ
  | weight :: weights, digit :: digits => weight * digit + combine weights digits
  | _, _ => 0

/-- Weights that suit the radices when the lowest place counts `unit`. -/
def Suits : (unit : ℕ) → (radices weights : List ℕ) → Prop
  | _, [], [] => True
  | unit, radix :: radices, weight :: weights =>
      (2 ≤ radix → weight = unit) ∧ Suits (unit * radix) radices weights
  | _, _, _ => False

/-- Every digit is below its radix. -/
theorem forall₂_digits {radices : List ℕ} (hpos : ∀ radix ∈ radices, 0 < radix) (n : ℕ) :
    List.Forall₂ (· < ·) (digits radices n) radices := by
  induction radices generalizing n with
  | nil => exact List.Forall₂.nil
  | cons radix radices ih =>
      obtain ⟨hradix, hrest⟩ := List.forall_mem_cons.mp hpos
      exact List.Forall₂.cons (Nat.mod_lt n hradix) (ih hrest (n / radix))

/-- One list of digits is below another, the highest place deciding first. -/
def Below : List ℕ → List ℕ → Prop
  | low :: digits, low' :: digits' => Below digits digits' ∨ (digits = digits' ∧ low < low')
  | _, _ => False

/-- The digits of numbers in range are ordered as the numbers are. -/
theorem digits_below {radices : List ℕ} {m n : ℕ} (h : m < n) (hn : n < radices.prod) :
    Below (digits radices m) (digits radices n) := by
  induction radices generalizing m n with
  | nil =>
      simp only [List.prod_nil] at hn
      omega
  | cons radix radices ih =>
      rw [List.prod_cons] at hn
      rcases (Nat.div_le_div_right h.le : m / radix ≤ n / radix).lt_or_eq with hlt | heq
      · exact Or.inl (ih hlt (Nat.div_lt_of_lt_mul hn))
      · refine Or.inr ⟨congrArg (digits radices) heq, ?_⟩
        have hm := Nat.mod_add_div m radix
        have hn := Nat.mod_add_div n radix
        rw [heq] at hm
        omega

/-- All lists of digits, those that differ in the lowest place next to each other. -/
def enumerate : List ℕ → List (List ℕ)
  | [] => [[]]
  | radix :: radices =>
      (enumerate radices).flatMap fun digits => (List.range radix).map fun digit => digit :: digits

theorem flatMap_range_mul (radix n : ℕ) :
    ((List.range n).flatMap fun high => (List.range radix).map fun low => radix * high + low) =
      List.range (radix * n) := by
  induction n with
  | zero => rfl
  | succ n ih =>
      rw [List.range_succ, List.flatMap_append, ih, List.flatMap_singleton, Nat.mul_succ,
        List.range_add]

/-- They come in the order of the numbers. -/
theorem enumerate_eq {radices : List ℕ} (hpos : ∀ radix ∈ radices, 0 < radix) :
    enumerate radices = (List.range radices.prod).map (digits radices) := by
  induction radices with
  | nil => rfl
  | cons radix radices ih =>
      obtain ⟨hradix, hrest⟩ := List.forall_mem_cons.mp hpos
      rw [enumerate, ih hrest, List.flatMap_map, List.prod_cons, ← flatMap_range_mul,
        List.map_flatMap]
      refine List.flatMap_congr fun high _ => ?_
      rw [List.map_map]
      refine List.map_congr_left fun low hlow => ?_
      have hlt := List.mem_range.mp hlow
      rw [Function.comp_apply, digits, Nat.mul_add_mod, Nat.mod_eq_of_lt hlt,
        Nat.mul_add_div hradix, Nat.div_eq_of_lt hlt, Nat.add_zero]

theorem digits_zero (radices : List ℕ) : ∀ digit ∈ digits radices 0, digit = 0 := by
  induction radices with
  | nil => simp [digits]
  | cons radix radices ih =>
      intro digit hdigit
      rw [digits, Nat.zero_mod, Nat.zero_div] at hdigit
      rcases List.mem_cons.mp hdigit with rfl | hdigit
      · rfl
      · exact ih digit hdigit

theorem combine_zeros {weights digits : List ℕ} (h : ∀ digit ∈ digits, digit = 0) :
    combine weights digits = 0 := by
  induction weights generalizing digits with
  | nil => cases digits <;> rfl
  | cons weight weights ih =>
      cases digits with
      | nil => rfl
      | cons digit digits =>
          obtain ⟨rfl, hrest⟩ := List.forall_mem_cons.mp h
          rw [combine, ih hrest, mul_zero]

/-- Numbers are recovered, as multiples of `unit`, exactly with suitable
weights. -/
theorem combine_digits_iff {radices weights : List ℕ} (hpos : ∀ radix ∈ radices, 0 < radix)
    (hlength : weights.length = radices.length) (unit : ℕ) :
    (∀ n < radices.prod, combine weights (digits radices n) = unit * n) ↔
      Suits unit radices weights := by
  induction radices generalizing weights unit with
  | nil =>
      obtain rfl := List.eq_nil_of_length_eq_zero hlength
      simp [combine, Suits]
  | cons radix radices ih =>
      obtain ⟨weight, weights, rfl⟩ := List.exists_cons_of_length_eq_add_one hlength
      obtain ⟨hradix, hrest⟩ := List.forall_mem_cons.mp hpos
      have hprod : 0 < radices.prod := List.prod_pos hrest
      rw [Suits, ← ih hrest (by simpa using hlength), List.prod_cons]
      simp only [digits, combine]
      constructor
      · intro h
        refine ⟨fun htwo => ?_, fun m hm => ?_⟩
        · -- the number one has a one in the lowest place only
          have hone := h 1 (lt_of_lt_of_le htwo (Nat.le_mul_of_pos_right radix hprod))
          rw [Nat.mod_eq_of_lt htwo, Nat.div_eq_of_lt htwo, combine_zeros (digits_zero radices)]
            at hone
          simpa using hone
        · -- multiples of the radix have a zero there
          have hmul := h (radix * m) (Nat.mul_lt_mul_of_pos_left hm hradix)
          rw [Nat.mul_mod_right, Nat.mul_div_cancel_left m hradix, mul_zero, zero_add] at hmul
          rw [hmul, mul_assoc]
      · rintro ⟨hweight, hupper⟩ n hn
        have hdiv : n / radix < radices.prod := Nat.div_lt_of_lt_mul hn
        have hlow : weight * (n % radix) = unit * (n % radix) := by
          rcases Nat.lt_or_ge radix 2 with hsmall | htwo
          · obtain rfl : radix = 1 := by omega
            simp [Nat.mod_one]
          · rw [hweight htwo]
        calc weight * (n % radix) + combine weights (digits radices (n / radix))
            = unit * (n % radix) + unit * radix * (n / radix) := by rw [hlow, hupper _ hdiv]
          _ = unit * (n % radix + radix * (n / radix)) := by ring
          _ = unit * n := by rw [Nat.mod_add_div]

end MixedRadix
