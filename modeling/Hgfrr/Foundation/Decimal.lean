import Mathlib

/-!
# Decimal numerals as text

Numbers are written in decimal, with leading zeros up to a width or with a
sign, and read back from a prefix of a text.
-/

namespace Decimal

/-- The decimal numeral of a number, with zeros in front up to `width`. -/
def padded (width n : ℕ) : List Char := (Nat.toDigits 10 n).leftpad width '0'

/-- The number a list of digits stands for. -/
def value (digits : List Char) : ℕ := Nat.ofDigitChars 10 digits 0

@[simp] theorem value_toDigits (n : ℕ) : value (Nat.toDigits 10 n) = n :=
  Nat.ofDigitChars_ten_toDigits

@[simp] theorem value_padded (width n : ℕ) : value (padded width n) = n := by
  rw [value, padded, List.leftpad, Nat.ofDigitChars_append, Nat.ofDigitChars_replicate_zero,
    Nat.mul_zero, Nat.ofDigitChars_ten_toDigits]

theorem padded_injective (width : ℕ) : Function.Injective (padded width) := by
  intro m n h
  rw [← value_padded width m, h, value_padded]

theorem length_padded {width n : ℕ} (hwidth : 0 < width) (h : n < 10 ^ width) :
    (padded width n).length = width := by
  have hlen : (Nat.toDigits 10 n).length ≤ width :=
    (Nat.length_toDigits_le_iff (by omega) hwidth).mpr h
  simp only [padded, List.leftpad, List.length_append, List.length_replicate]
  omega

theorem width_le_length_padded (width n : ℕ) : width ≤ (padded width n).length := by
  simp only [padded, List.leftpad, List.length_append, List.length_replicate]
  omega

theorem lt_of_length_padded_le {width n : ℕ} (hwidth : 0 < width)
    (h : (padded width n).length ≤ width) : n < 10 ^ width := by
  refine (Nat.length_toDigits_le_iff (by omega) hwidth).mp (le_trans ?_ h)
  simp only [padded, List.leftpad, List.length_append]
  omega

theorem isDigit_of_mem_toDigits {n : ℕ} {c : Char} (h : c ∈ Nat.toDigits 10 n) : c.isDigit :=
  Nat.isDigit_of_mem_toDigits (by omega) le_rfl h

theorem isDigit_of_mem_padded {width n : ℕ} {c : Char} (h : c ∈ padded width n) : c.isDigit := by
  rcases List.mem_append.mp h with hzero | hdigit
  · rw [(List.mem_replicate.mp hzero).2]
    rfl
  · exact isDigit_of_mem_toDigits hdigit

theorem padded_zero {width : ℕ} (hwidth : 0 < width) :
    padded width 0 = List.replicate width '0' := by
  rw [padded, List.leftpad, Nat.toDigits_zero, List.length_singleton,
    ← List.replicate_one, List.replicate_append_replicate, Nat.sub_add_cancel hwidth]

/-! ## Signed numerals -/

/-- The decimal numeral of an integer. -/
def ofInt : ℤ → List Char
  | .ofNat n => Nat.toDigits 10 n
  | .negSucc n => '-' :: Nat.toDigits 10 (n + 1)

/-- White space that readers of numbers skip. -/
def isSpace (c : Char) : Bool := c.toNat == 32 || (9 ≤ c.toNat && c.toNat ≤ 13)

/-- Read the digits at the front, if there are any. -/
def scanNat (text : List Char) : Option ℕ :=
  if text.takeWhile Char.isDigit = [] then none else some (value (text.takeWhile Char.isDigit))

/-- Read a numeral at the front: white space, a sign, then digits. -/
def scanInt (text : List Char) : Option ℤ :=
  match text.dropWhile isSpace with
  | '-' :: rest => (scanNat rest).map fun n => -(n : ℤ)
  | '+' :: rest => (scanNat rest).map fun n => (n : ℤ)
  | rest => (scanNat rest).map fun n => (n : ℤ)

theorem scanNat_of_digits {digits : List Char} (hdigits : ∀ c ∈ digits, c.isDigit)
    (hne : digits ≠ []) : scanNat digits = some (value digits) := by
  have hall : digits.takeWhile Char.isDigit = digits :=
    List.takeWhile_eq_self_iff.mpr hdigits
  rw [scanNat, hall, if_neg hne]

theorem toNat_of_isDigit {c : Char} (h : c.isDigit) : 48 ≤ c.toNat ∧ c.toNat ≤ 57 := by
  simp only [Char.isDigit, Bool.and_eq_true, decide_eq_true_eq] at h
  exact ⟨UInt32.le_iff_toNat_le.mp h.1, UInt32.le_iff_toNat_le.mp h.2⟩

theorem not_isSpace_of_isDigit {c : Char} (h : c.isDigit) : isSpace c = false := by
  have hlow := (toNat_of_isDigit h).1
  simp only [isSpace, Bool.or_eq_false_iff, beq_eq_false_iff_ne, Bool.and_eq_false_iff,
    decide_eq_false_iff_not]
  omega

theorem scanInt_of_digits {digits : List Char} (hdigits : ∀ c ∈ digits, c.isDigit)
    (hne : digits ≠ []) : scanInt digits = some (value digits : ℤ) := by
  obtain ⟨c, rest, rfl⟩ := List.exists_cons_of_ne_nil hne
  have hc := hdigits c (by simp)
  have hdrop : (c :: rest).dropWhile isSpace = c :: rest := by
    rw [List.dropWhile_cons, if_neg (by simp [not_isSpace_of_isDigit hc])]
  have hminus : c ≠ '-' := by
    rintro rfl
    simp at hc
  have hplus : c ≠ '+' := by
    rintro rfl
    simp at hc
  rw [scanInt, hdrop]
  simp [hminus, hplus, scanNat_of_digits hdigits hne]

theorem scanInt_ofInt (z : ℤ) : scanInt (ofInt z) = some z := by
  cases z with
  | ofNat n =>
      rw [ofInt, scanInt_of_digits (fun c => isDigit_of_mem_toDigits) Nat.toDigits_ne_nil]
      simp
  | negSucc n =>
      have hdrop : ('-' :: Nat.toDigits 10 (n + 1)).dropWhile isSpace =
          '-' :: Nat.toDigits 10 (n + 1) := rfl
      rw [ofInt, scanInt, hdrop]
      simp [scanNat_of_digits (fun c => isDigit_of_mem_toDigits) Nat.toDigits_ne_nil,
        Int.negSucc_eq]

/-- Numerals are made of digits and a sign. -/
theorem mem_ofInt {z : ℤ} {c : Char} (h : c ∈ ofInt z) : c = '-' ∨ c.isDigit := by
  cases z with
  | ofNat n => exact Or.inr (isDigit_of_mem_toDigits h)
  | negSucc n =>
      rcases List.mem_cons.mp h with rfl | hdigit
      · exact Or.inl rfl
      · exact Or.inr (isDigit_of_mem_toDigits hdigit)

/-- A decimal integer: digits, with a sign in front or without. -/
inductive Numeral : List Char → ℤ → Prop
  | plain {digits : List Char} (hne : digits ≠ []) (hdigits : ∀ c ∈ digits, c.isDigit) :
      Numeral digits (value digits)
  | minus {digits : List Char} (hne : digits ≠ []) (hdigits : ∀ c ∈ digits, c.isDigit) :
      Numeral ('-' :: digits) (-(value digits : ℤ))
  | plus {digits : List Char} (hne : digits ≠ []) (hdigits : ∀ c ∈ digits, c.isDigit) :
      Numeral ('+' :: digits) (value digits)

variable {text : List Char} {z : ℤ}

theorem scanInt_of_numeral (h : Numeral text z) : scanInt text = some z := by
  cases h with
  | plain hne hdigits => exact scanInt_of_digits hdigits hne
  | minus hne hdigits =>
      have hdrop (digits : List Char) : ('-' :: digits).dropWhile isSpace = '-' :: digits := rfl
      simp [scanInt, hdrop, scanNat_of_digits hdigits hne]
  | plus hne hdigits =>
      have hdrop (digits : List Char) : ('+' :: digits).dropWhile isSpace = '+' :: digits := rfl
      simp [scanInt, hdrop, scanNat_of_digits hdigits hne]

theorem mem_of_numeral (h : Numeral text z) {c : Char} (hc : c ∈ text) :
    c = '-' ∨ c = '+' ∨ c.isDigit := by
  cases h with
  | plain _ hdigits => exact Or.inr (Or.inr (hdigits c hc))
  | minus _ hdigits => exact (List.mem_cons.mp hc).imp_right fun h => Or.inr (hdigits c h)
  | plus _ hdigits => exact Or.inr ((List.mem_cons.mp hc).imp_right (hdigits c))

end Decimal
