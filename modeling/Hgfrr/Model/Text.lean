import Hgfrr.Foundation.Decimal
import Hgfrr.Foundation.Emission
import Hgfrr.Foundation.Results

/-!
# Texts and their failures

The parts of the standard library that the program relies on: substrings,
searching, number formats and number parsing. A call that throws, or whose
behaviour is undefined, ends in a `Fault`.
-/

namespace Hgfrr

/-- `std::string`. -/
abbrev Str := List Char

instance : LawfulBEq Str := inferInstance

/-- How a call fails: the two exceptions that are thrown, undefined behaviour
(a division by zero, a null pointer, an access past the end of an array), and a
loop that does not end. -/
inductive Fault
  | outOfRange
  | invalidArgument
  | undefinedBehaviour
  | nonTermination
deriving DecidableEq, Repr

/-- `s.substr(pos, len)`. -/
def substr (s : Str) (pos len : ℕ) : Except Fault Str :=
  if pos ≤ s.length then .ok ((s.drop pos).take len) else .error .outOfRange

/-- `s.substr(pos)`. -/
def substrFrom (s : Str) (pos : ℕ) : Except Fault Str :=
  if pos ≤ s.length then .ok (s.drop pos) else .error .outOfRange

/-- `s.find(c, pos)`, where `none` stands for `npos`. -/
def find (s : Str) (c : Char) (pos : ℕ) : Option ℕ :=
  ((s.drop pos).idxOf? c).map (pos + ·)

/-- `ss << std::setw(width) << std::setfill('0') << n`. -/
def setw (width n : ℕ) : Str := Decimal.padded width n

/-- `std::to_string`. -/
def toString (z : ℤ) : Str := Decimal.ofInt z

/-- The values of `int`. -/
def FitsInt (z : ℤ) : Prop := -2 ^ 31 ≤ z ∧ z < 2 ^ 31

instance : DecidablePred FitsInt := fun z =>
  inferInstanceAs (Decidable (-2 ^ 31 ≤ z ∧ z < 2 ^ 31))

/-- `std::stoi`. -/
def stoi (s : Str) : Except Fault ℤ :=
  match Decimal.scanInt s with
  | none => .error .invalidArgument
  | some z => if FitsInt z then .ok z else .error .outOfRange

/-- `ss >> i` for an `int` that is zero before. -/
def streamInt (s : Str) : ℤ :=
  match Decimal.scanInt s with
  | none => 0
  | some z => max (-2 ^ 31) (min z (2 ^ 31 - 1))

/-- Conversion to `unsigned long`. -/
def ulong (z : ℤ) : ℕ := (z % 2 ^ 64).toNat

/-- Insertion into a `std::unordered_set`. -/
def setInsert {α : Type*} [DecidableEq α] (a : α) (set : List α) : List α :=
  if a ∈ set then set else set ++ [a]

section Lemmas

variable {s : Str} {pos len : ℕ}

theorem substr_of_le (h : pos ≤ s.length) : substr s pos len = .ok ((s.drop pos).take len) :=
  if_pos h

/-- A segment of a text is the substring at its place. -/
theorem substr_segment (before segment after : Str) (hpos : before.length = pos)
    (hlen : segment.length = len) :
    substr (before ++ (segment ++ after)) pos len = .ok segment := by
  subst hpos hlen
  rw [substr_of_le (by simp), List.drop_left, List.take_left]

theorem substrFrom_segment (before segment : Str) (hpos : before.length = pos) :
    substrFrom (before ++ segment) pos = .ok segment := by
  subst hpos
  rw [substrFrom, if_pos (by simp), List.drop_left]

theorem length_of_substrFrom {text : Str} (h : substrFrom s pos = .ok text) :
    text.length = s.length - pos := by
  unfold substrFrom at h
  split at h
  next =>
    obtain rfl := Except.ok.inj h
    simp
  next => exact absurd h (by simp)

theorem stoi_toString {z : ℤ} (h : FitsInt z) : stoi (toString z) = .ok z := by
  rw [stoi, toString, Decimal.scanInt_ofInt]
  exact if_pos h

theorem length_setw {width n : ℕ} (hwidth : 0 < width) (h : n < 10 ^ width) :
    (setw width n).length = width := Decimal.length_padded hwidth h

theorem streamInt_setw {width n : ℕ} (h : n < 2 ^ 31) : streamInt (setw width n) = n := by
  have hne : setw width n ≠ [] := by
    simp [setw, Decimal.padded, List.leftpad, Nat.toDigits_ne_nil]
  have hscan : Decimal.scanInt (setw width n) = some (n : ℤ) := by
    rw [setw, Decimal.scanInt_of_digits (fun c => Decimal.isDigit_of_mem_padded) hne,
      Decimal.value_padded]
  rw [streamInt, hscan]
  simp only
  omega

theorem ulong_lt (z : ℤ) : ulong z < 2 ^ 64 := by
  simp only [ulong]
  omega

theorem ulong_of_lt {n : ℕ} (h : n < 2 ^ 64) : ulong n = n := by
  simp only [ulong]
  omega

@[simp] theorem mem_setInsert {α : Type*} [DecidableEq α] {a b : α} {set : List α} :
    a ∈ setInsert b set ↔ a = b ∨ a ∈ set := by
  unfold setInsert
  split
  next hmem => exact ⟨Or.inr, fun h => h.elim (fun heq => heq ▸ hmem) id⟩
  next => simp [or_comm]

end Lemmas

section Sets

theorem mem_foldl_setInsert {α : Type*} [DecidableEq α] {items set : List α} {a : α} :
    a ∈ items.foldl (fun set item => setInsert item set) set ↔ a ∈ items ∨ a ∈ set := by
  induction items generalizing set with
  | nil => simp
  | cons item items ih =>
      rw [List.foldl_cons, ih, mem_setInsert, List.mem_cons, or_left_comm, or_assoc]

theorem nodup_foldl_setInsert {α : Type*} [DecidableEq α] {items set : List α} (h : set.Nodup) :
    (items.foldl (fun set item => setInsert item set) set).Nodup := by
  induction items generalizing set with
  | nil => exact h
  | cons item items ih =>
      rw [List.foldl_cons]
      apply ih
      unfold setInsert
      split
      next => exact h
      next hnot => simpa using h.concat hnot

end Sets

end Hgfrr
