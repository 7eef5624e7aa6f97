import Mathlib

/-!
# Dyadic blocks

A block is a range of `2 ^ bits` numbers that starts at a multiple of its size:
the numbers with a given beginning in binary. Halving a block gives two. As
exclusive or with a fixed number acts on the beginnings, it maps disjoint blocks
to ranges that do not overlap: which of two blocks is nearer to a number does not
depend on the members they are compared by.

A range is tiled by pieces that follow each other without a gap.
-/

namespace Dyadic

def Block (bits first last : ℕ) : Prop := 2 ^ bits ∣ first ∧ last + 1 = first + 2 ^ bits

variable {bits bits' first last first' last' n m p q t c : ℕ}

theorem Block.first_le_last (h : Block bits first last) : first ≤ last := by
  have := Nat.two_pow_pos bits
  have := h.2
  omega

theorem Block.first_le_midpoint (h : Block bits first last) :
    first ≤ first + (last - first) / 2 ∧ first + (last - first) / 2 ≤ last := by
  have := h.first_le_last
  omega

/-- The middle of a block. -/
theorem Block.half_eq (h : Block (bits + 1) first last) :
    first + (last - first) / 2 + 1 = first + 2 ^ bits := by
  have := Nat.two_pow_pos bits
  have hlast := h.2
  rw [pow_succ] at hlast
  omega

theorem Block.lower (h : Block (bits + 1) first last) :
    Block bits first (first + (last - first) / 2) :=
  ⟨(pow_dvd_pow 2 (Nat.le_succ bits)).trans h.1, h.half_eq⟩

theorem Block.upper (h : Block (bits + 1) first last) :
    Block bits (first + (last - first) / 2 + 1) last := by
  have hlast := h.2
  rw [pow_succ] at hlast
  rw [h.half_eq]
  refine ⟨(Nat.dvd_add_right ((pow_dvd_pow 2 (Nat.le_succ bits)).trans h.1)).mpr dvd_rfl, ?_⟩
  omega

/-- The members of a block begin in the same way. -/
theorem Block.div_eq (h : Block bits first last) (hle : bits ≤ c) (hfirst : first ≤ n)
    (hlast : n ≤ last) : n / 2 ^ c = first / 2 ^ c := by
  obtain ⟨k, hk⟩ := h.1
  rw [Nat.mul_comm] at hk
  have hn : n / 2 ^ bits = k := by
    rw [Nat.div_eq_iff (Nat.two_pow_pos bits)]
    have := h.2
    omega
  have hf : first / 2 ^ bits = k := by
    rw [hk]
    exact Nat.mul_div_cancel k (Nat.two_pow_pos bits)
  obtain ⟨d, rfl⟩ := Nat.exists_eq_add_of_le hle
  rw [pow_add, ← Nat.div_div_eq_div_mul, ← Nat.div_div_eq_div_mul, hn, hf]

/-- Disjoint blocks begin differently. -/
theorem exists_div_ne (h : Block bits first last) (h' : Block bits' first' last')
    (hlt : last < first') :
    ∃ c a b, a ≠ b ∧ (∀ n, first ≤ n → n ≤ last → n / 2 ^ c = a) ∧
      ∀ p, first' ≤ p → p ≤ last' → p / 2 ^ c = b := by
  refine ⟨max bits bits', _, _, ?_, fun n => h.div_eq (le_max_left _ _),
    fun p => h'.div_eq (le_max_right _ _)⟩
  apply ne_of_lt
  rcases le_total bits bits' with hle | hle
  · -- the later block is the larger one: it starts at a multiple
    rw [max_eq_right hle]
    obtain ⟨k, hk⟩ := h'.1
    have hfirst := h.first_le_last
    rw [Nat.mul_comm] at hk
    rw [hk, Nat.mul_div_cancel k (Nat.two_pow_pos bits'),
      Nat.div_lt_iff_lt_mul (Nat.two_pow_pos bits')]
    omega
  · -- the earlier block is the larger one: it ends before a multiple
    obtain ⟨k, hk⟩ := h.1
    have hlast := h.2
    rw [Nat.mul_comm] at hk
    rw [max_eq_left hle, Nat.lt_iff_add_one_le, Nat.le_div_iff_mul_le (Nat.two_pow_pos bits), hk,
      Nat.mul_div_cancel k (Nat.two_pow_pos bits), Nat.add_mul]
    omega

theorem lt_iff_div_lt_div {a b : ℕ} (h : a / 2 ^ c ≠ b / 2 ^ c) :
    a < b ↔ a / 2 ^ c < b / 2 ^ c := by
  constructor
  · exact fun hlt => lt_of_le_of_ne (Nat.div_le_div_right hlt.le) h
  · exact fun hlt => lt_of_not_ge fun hge => absurd (Nat.div_le_div_right hge) (not_le.mpr hlt)

/-- Which of two disjoint blocks is nearer does not depend on the members. -/
theorem xor_lt_xor_iff (h : Block bits first last) (h' : Block bits' first' last')
    (hdisjoint : last < first' ∨ last' < first) (hn : first ≤ n ∧ n ≤ last)
    (hm : first ≤ m ∧ m ≤ last) (hp : first' ≤ p ∧ p ≤ last') (hq : first' ≤ q ∧ q ≤ last') :
    n ^^^ t < p ^^^ t ↔ m ^^^ t < q ^^^ t := by
  have hprefix : ∃ c a b, a ≠ b ∧ (∀ n, first ≤ n → n ≤ last → n / 2 ^ c = a) ∧
      ∀ p, first' ≤ p → p ≤ last' → p / 2 ^ c = b := by
    rcases hdisjoint with hlt | hlt
    · exact exists_div_ne h h' hlt
    · obtain ⟨c, a, b, hne, ha, hb⟩ := exists_div_ne h' h hlt
      exact ⟨c, b, a, hne.symm, hb, ha⟩
  obtain ⟨c, a, b, hne, ha, hb⟩ := hprefix
  have hxor : a ^^^ t / 2 ^ c ≠ b ^^^ t / 2 ^ c := fun heq => hne (Nat.xor_left_injective heq)
  have hdecide : ∀ x y, x / 2 ^ c = a → y / 2 ^ c = b →
      (x ^^^ t < y ^^^ t ↔ a ^^^ t / 2 ^ c < b ^^^ t / 2 ^ c) := by
    intro x y hx hy
    have hdiv := lt_iff_div_lt_div (c := c) (a := x ^^^ t) (b := y ^^^ t)
    rw [Nat.xor_div_two_pow, Nat.xor_div_two_pow, hx, hy] at hdiv
    exact hdiv hxor
  rw [hdecide n p (ha n hn.1 hn.2) (hb p hp.1 hp.2), hdecide m q (ha m hm.1 hm.2) (hb q hq.1 hq.2)]

/-! ## Tilings -/

section Tiles

variable {β : Type*} (first last : β → ℕ)

/-- The pieces cover the numbers from `lo` up to `hi`, one after the other. -/
def Tiles (lo hi : ℕ) : List β → Prop
  | [] => lo = hi
  | piece :: pieces =>
      first piece = lo ∧ first piece ≤ last piece ∧ Tiles (last piece + 1) hi pieces

variable {first last} {lo hi n : ℕ} {pieces pieces' front back : List β}

theorem Tiles.le (h : Tiles first last lo hi pieces) : lo ≤ hi := by
  induction pieces generalizing lo with
  | nil => exact h.le
  | cons piece pieces ih =>
      have hrest := ih h.2.2
      have hfirst := h.1
      have hle := h.2.1
      omega

theorem tiles_append :
    Tiles first last lo hi (front ++ back) ↔
      ∃ mid, Tiles first last lo mid front ∧ Tiles first last mid hi back := by
  induction front generalizing lo with
  | nil => exact ⟨fun h => ⟨lo, rfl, h⟩, fun ⟨_, heq, h⟩ => heq ▸ h⟩
  | cons piece front ih =>
      rw [List.cons_append]
      simp only [Tiles, ih]
      constructor
      · rintro ⟨hfirst, hle, mid, hfront, hback⟩
        exact ⟨mid, ⟨hfirst, hle, hfront⟩, hback⟩
      · rintro ⟨mid, ⟨hfirst, hle, hfront⟩, hback⟩
        exact ⟨hfirst, hle, mid, hfront, hback⟩

/-- Some pieces may be replaced by others that tile the same numbers. -/
theorem Tiles.replace (h : Tiles first last lo hi (front ++ pieces ++ back))
    (hpieces : ∀ mid mid', Tiles first last mid mid' pieces → Tiles first last mid mid' pieces') :
    Tiles first last lo hi (front ++ pieces' ++ back) := by
  obtain ⟨mid', h, hback⟩ := tiles_append.mp h
  obtain ⟨mid, hfront, h⟩ := tiles_append.mp h
  exact tiles_append.mpr ⟨mid', tiles_append.mpr ⟨mid, hfront, hpieces mid mid' h⟩, hback⟩

theorem Tiles.bounds (h : Tiles first last lo hi pieces) {piece : β} (hpiece : piece ∈ pieces) :
    lo ≤ first piece ∧ first piece ≤ last piece ∧ last piece < hi := by
  induction pieces generalizing lo with
  | nil => exact absurd hpiece List.not_mem_nil
  | cons head pieces ih =>
      have hle := h.2.2.le
      have hfirst := h.1
      rcases List.mem_cons.mp hpiece with rfl | hmem
      · exact ⟨hfirst.ge, h.2.1, hle⟩
      · have hrest := ih h.2.2 hmem
        have hhead := h.2.1
        exact ⟨by omega, hrest.2⟩

theorem Tiles.pairwise_lt (h : Tiles first last lo hi pieces) :
    pieces.Pairwise fun piece piece' => last piece < first piece' := by
  induction pieces generalizing lo with
  | nil => exact List.Pairwise.nil
  | cons piece pieces ih =>
      exact List.pairwise_cons.mpr ⟨fun _ hmem => (h.2.2.bounds hmem).1, ih h.2.2⟩

/-- A number of one piece is in no other. -/
theorem Tiles.not_mem_of_mem {piece other : β}
    (h : Tiles first last lo hi (front ++ [piece] ++ back))
    (hn : first piece ≤ n ∧ n ≤ last piece) (hother : other ∈ front ++ back) :
    ¬ (first other ≤ n ∧ n ≤ last other) := by
  rintro ⟨hfirst, hlast⟩
  obtain ⟨hfront, -, hback⟩ := List.pairwise_append.mp h.pairwise_lt
  rcases List.mem_append.mp hother with hmem | hmem
  · have hlt := (List.pairwise_append.mp hfront).2.2 other hmem piece (by simp)
    omega
  · have hlt := hback piece (by simp) other hmem
    omega

/-- Every number of the range is in a piece. -/
theorem Tiles.exists_piece (h : Tiles first last lo hi pieces) (hlo : lo ≤ n) (hhi : n < hi) :
    ∃ piece ∈ pieces, first piece ≤ n ∧ n ≤ last piece := by
  induction pieces generalizing lo with
  | nil =>
      obtain rfl : lo = hi := h
      omega
  | cons piece pieces ih =>
      by_cases hle : n ≤ last piece
      · exact ⟨piece, List.mem_cons_self, h.1 ▸ hlo, hle⟩
      · obtain ⟨piece', hmem, hpiece⟩ := ih h.2.2 (by omega)
        exact ⟨piece', List.mem_cons_of_mem _ hmem, hpiece⟩

end Tiles

section BinaryTexts

/-- The binary numeral with zeros in front. -/
def binary (width x : ℕ) : List Char := (Nat.toDigits 2 x).leftpad width '0'

variable {width x y i : ℕ}

/-- A number is told by its digits. -/
theorem binary_inj : binary width x = binary width y ↔ x = y := by
  refine ⟨fun h => ?_, fun h => h ▸ rfl⟩
  have hvalue : ∀ z, Nat.ofDigitChars 2 (binary width z) 0 = z := by
    intro z
    rw [binary, List.leftpad, Nat.ofDigitChars_append, Nat.ofDigitChars_replicate_zero,
      Nat.mul_zero, Nat.ofDigitChars_toDigits one_lt_two (by omega)]
  rw [← hvalue x, h, hvalue]

theorem length_binary (hwidth : 0 < width) (h : x < 2 ^ width) :
    (binary width x).length = width := by
  have hlen := (Nat.length_toDigits_le_iff one_lt_two hwidth).mpr h
  rw [binary, List.length_leftpad, max_eq_left hlen]

/-- The last digit is the remainder. -/
theorem binary_succ (hwidth : 0 < width) :
    binary (width + 1) x = binary width (x / 2) ++ [Nat.digitChar (x % 2)] := by
  by_cases hlt : x < 2
  · obtain ⟨rest, rfl⟩ := Nat.exists_eq_succ_of_ne_zero hwidth.ne'
    rw [binary, binary, Nat.toDigits_of_lt_base hlt, Nat.div_eq_of_lt hlt, Nat.mod_eq_of_lt hlt,
      Nat.toDigits_zero, List.leftpad, List.leftpad, List.length_singleton, List.length_singleton,
      Nat.add_sub_cancel, Nat.succ_eq_add_one, Nat.add_sub_cancel, List.replicate_succ']
  · rw [binary, binary, Nat.toDigits_of_base_le one_lt_two (Nat.le_of_not_lt hlt), List.leftpad,
      List.leftpad, List.length_append, List.length_singleton, Nat.add_sub_add_right,
      List.append_assoc]

/-- The beginning of a binary text is that of the leading bits. -/
theorem take_binary (hi : 0 < i) (hle : i ≤ width) (h : x < 2 ^ width) :
    (binary width x).take i = binary i (x / 2 ^ (width - i)) := by
  induction width, hle using Nat.le_induction generalizing x with
  | base =>
      rw [Nat.sub_self, pow_zero, Nat.div_one,
        List.take_of_length_le (length_binary hi h).le]
  | succ width hle ih =>
      have hwidth : 0 < width := hi.trans_le hle
      have hhalf : x / 2 < 2 ^ width := by
        rw [pow_succ] at h
        omega
      rw [binary_succ hwidth, List.take_append_of_le_length (by rwa [length_binary hwidth hhalf]),
        ih hhalf, Nat.succ_sub hle, pow_succ, Nat.div_div_eq_div_mul, Nat.mul_comm]

/-- Two numbers have a beginning in common when they are in one block. -/
theorem take_binary_eq_iff (hle : i ≤ width) (hx : x < 2 ^ width) (hy : y < 2 ^ width) :
    (binary width x).take i = (binary width y).take i ↔
      x / 2 ^ (width - i) = y / 2 ^ (width - i) := by
  rcases Nat.eq_zero_or_pos i with rfl | hi
  · rw [List.take_zero, List.take_zero, Nat.sub_zero, Nat.div_eq_of_lt hx, Nat.div_eq_of_lt hy]
    simp
  · rw [take_binary hi hle hx, take_binary hi hle hy, binary_inj]

end BinaryTexts

end Dyadic
