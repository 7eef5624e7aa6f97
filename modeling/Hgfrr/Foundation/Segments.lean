import Hgfrr.Foundation.Decimal
import Hgfrr.Foundation.MixedRadix

/-!
# Numbers as texts of segments

The digits of a number are written one after the other, the highest first, each as a
numeral of a width of its own. Texts of the same widths are ordered as the digits are.
-/

/-! ## Texts of the same length -/

namespace Lexicographic

variable {α : Type*} [LT α] {s t u v : List α}

theorem append_lt_append (hlength : s.length = t.length) (h : s < t) : s ++ u < t ++ v := by
  induction s generalizing t with
  | nil =>
      obtain rfl := List.eq_nil_of_length_eq_zero hlength.symm
      cases h
  | cons a s ih =>
      obtain ⟨b, t, rfl⟩ := List.exists_cons_of_length_eq_add_one hlength.symm
      rw [List.cons_append, List.cons_append, List.cons_lt_cons_iff]
      rcases List.cons_lt_cons_iff.mp h with hlt | ⟨heq, hlt⟩
      · exact Or.inl hlt
      · exact Or.inr ⟨heq, ih (Nat.succ.inj hlength) hlt⟩

end Lexicographic

namespace Decimal

/-! ## Numerals of the same width -/

theorem value_cons (c : Char) (digits : List Char) :
    value (c :: digits) = 10 ^ digits.length * (c.toNat - '0'.toNat) + value digits := by
  rw [value, Nat.ofDigitChars_cons, Nat.mul_zero, Nat.zero_add,
    Nat.ofDigitChars_eq_ofDigitChars_zero, value]

theorem value_lt {digits : List Char} (h : ∀ c ∈ digits, c.isDigit) :
    value digits < 10 ^ digits.length := by
  induction digits with
  | nil => decide
  | cons c digits ih =>
      obtain ⟨hc, hdigits⟩ := List.forall_mem_cons.mp h
      have hdigit := (toNat_of_isDigit hc).2
      have hrest := ih hdigits
      have hzero : '0'.toNat = 48 := rfl
      rw [value_cons, List.length_cons, Nat.pow_succ]
      calc 10 ^ digits.length * (c.toNat - '0'.toNat) + value digits
          < 10 ^ digits.length * (c.toNat - '0'.toNat) + 10 ^ digits.length := by omega
        _ = 10 ^ digits.length * (c.toNat - '0'.toNat + 1) := by rw [Nat.mul_succ]
        _ ≤ 10 ^ digits.length * 10 := Nat.mul_le_mul_left _ (by omega)

/-- Numerals of the same length are ordered as their values. -/
theorem lt_of_value_lt {s t : List Char} (hlength : s.length = t.length)
    (hs : ∀ c ∈ s, c.isDigit) (ht : ∀ c ∈ t, c.isDigit) (h : value s < value t) : s < t := by
  induction s generalizing t with
  | nil =>
      obtain rfl := List.eq_nil_of_length_eq_zero hlength.symm
      exact absurd h (lt_irrefl _)
  | cons c s ih =>
      obtain ⟨d, t, rfl⟩ := List.exists_cons_of_length_eq_add_one hlength.symm
      obtain ⟨hc, hs⟩ := List.forall_mem_cons.mp hs
      obtain ⟨hd, ht⟩ := List.forall_mem_cons.mp ht
      have hrest : s.length = t.length := Nat.succ.inj hlength
      rw [value_cons, value_cons, hrest] at h
      rw [List.cons_lt_cons_iff]
      rcases lt_trichotomy c.toNat d.toNat with hlt | heq | hgt
      · exact Or.inl hlt
      · rw [heq] at h
        exact Or.inr ⟨Char.toNat_inj.mp heq, ih hrest hs ht (by omega)⟩
      · -- a higher digit is more than all that the rest can hold
        have hvalue := value_lt ht
        have hstep : 10 ^ t.length * (d.toNat - '0'.toNat) + 10 ^ t.length ≤
            10 ^ t.length * (c.toNat - '0'.toNat) := by
          rw [← Nat.mul_succ]
          have hlow := (toNat_of_isDigit hd).1
          have hzero : '0'.toNat = 48 := rfl
          exact Nat.mul_le_mul_left _ (by omega)
        omega

theorem padded_lt {width m n : ℕ} (hwidth : 0 < width) (h : m < n) (hn : n < 10 ^ width) :
    padded width m < padded width n := by
  apply lt_of_value_lt
  · rw [length_padded hwidth (h.trans hn), length_padded hwidth hn]
  · exact fun c => isDigit_of_mem_padded
  · exact fun c => isDigit_of_mem_padded
  · rwa [value_padded, value_padded]

/-! ## Segments -/

/-- The text of digits with the widths of their segments, both lowest first. -/
def segments : List ℕ → List ℕ → List Char
  | width :: widths, digit :: digits => segments widths digits ++ padded width digit
  | _, _ => []

/-- Every digit fits its segment. -/
def Fit (widths digits : List ℕ) : Prop :=
  List.Forall₂ (fun width digit => 0 < width ∧ digit < 10 ^ width) widths digits

variable {widths digits digits' : List ℕ}

theorem length_segments (h : Fit widths digits) : (segments widths digits).length = widths.sum := by
  induction h with
  | nil => rfl
  | cons hdigit _ ih =>
      rw [segments, List.length_append, ih, length_padded hdigit.1 hdigit.2, List.sum_cons,
        Nat.add_comm]

theorem isDigit_of_mem_segments {c : Char} (h : c ∈ segments widths digits) : c.isDigit := by
  induction widths generalizing digits with
  | nil => simp [segments] at h
  | cons width widths ih =>
      cases digits with
      | nil => simp [segments] at h
      | cons digit digits =>
          rcases List.mem_append.mp h with hhigh | hlow
          · exact ih hhigh
          · exact isDigit_of_mem_padded hlow

/-- Segments are ordered as the digits are. -/
theorem segments_lt (h : Fit widths digits) (h' : Fit widths digits')
    (hbelow : MixedRadix.Below digits digits') :
    segments widths digits < segments widths digits' := by
  induction h generalizing digits' with
  | nil =>
      cases h'
      exact hbelow.elim
  | cons hdigit hdigits ih =>
      cases h' with
      | cons hdigit' hdigits' =>
          rcases hbelow with hhigh | ⟨rfl, hlow⟩
          · apply Lexicographic.append_lt_append
            · rw [length_segments hdigits, length_segments hdigits']
            · exact ih hdigits' hhigh
          · exact List.append_left_lt (padded_lt hdigit.1 hlow hdigit'.2)

end Decimal
