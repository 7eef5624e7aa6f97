import Hgfrr.Model.Multiplexer

/-!
# Short items of RLP

The encoding of numbers and of short lists of them, which is what the multiplexer
uses.
-/

namespace Hgfrr.Multiplexing

namespace ShortRlp

def bigEndian (n : ℕ) : Bytes := (Nat.digits 256 n).reverse.map UInt8.ofNat

/-- A byte below 128 is its own item. -/
def encodeInt (n : ℕ) : Bytes :=
  if n ≠ 0 ∧ n < 128 then [.ofNat n] else .ofNat (128 + (bigEndian n).length) :: bigEndian n

def encodeInts (l : List ℕ) : Bytes :=
  .ofNat (192 + (l.flatMap encodeInt).length) :: l.flatMap encodeInt

def consumeInt : Bytes → Option (ℕ × ℕ)
  | [] => none
  | x :: rest =>
      if x.toNat < 128 then some (x.toNat, 1)
      else if x.toNat - 128 < 56 ∧ x.toNat - 128 ≤ rest.length then
        some (bigEndianToInt (rest.take (x.toNat - 128)), x.toNat - 128 + 1)
      else none

def consumeInts : ℕ → Bytes → Option (List ℕ)
  | _, [] => some []
  | 0, _ => none
  | n + 1, b =>
      match consumeInt b with
      | none => none
      | some item => (consumeInts n (b.drop item.2)).map (item.1 :: ·)

def decodeInts : Bytes → Option (List ℕ)
  | [] => none
  | x :: rest =>
      if 192 ≤ x.toNat ∧ x.toNat - 192 < 56 ∧ x.toNat - 192 ≤ rest.length then
        (consumeInts (x.toNat - 192) (rest.take (x.toNat - 192))).map (List.take 3)
      else none

/-- A number is told by its bytes. -/
theorem bigEndianToInt_bigEndian (n : ℕ) : bigEndianToInt (bigEndian n) = n := by
  have hdigits : ∀ l : List ℕ, (∀ d ∈ l, d < 256) →
      bigEndianToInt (l.reverse.map UInt8.ofNat) = Nat.ofDigits 256 l := by
    intro l hl
    induction l with
    | nil => rfl
    | cons d l ih =>
        obtain ⟨hd, hrest⟩ := List.forall_mem_cons.mp hl
        rw [List.reverse_cons, List.map_append, List.map_singleton, bigEndianToInt_concat,
          ih hrest, Nat.ofDigits_cons, UInt8.toNat_ofNat_of_lt' hd, Nat.add_comm]
  rw [bigEndian, hdigits _ fun d hd => Nat.digits_lt_base (by norm_num) hd, Nat.ofDigits_digits]

/-- How many bytes a number takes. -/
theorem length_bigEndian_le_iff (k n : ℕ) : (bigEndian n).length ≤ k ↔ n < 256 ^ k := by
  rw [bigEndian, List.length_map, List.length_reverse]
  exact Nat.digits_length_le_iff (by norm_num) n

/-- An encoded number is longer by a prefix at most. -/
theorem length_encodeInt (k n : ℕ) (h : n < 256 ^ k) : (encodeInt n).length ≤ k + 1 := by
  unfold encodeInt
  split
  next => simp
  next => exact Nat.succ_le_succ ((length_bigEndian_le_iff k n).mpr h)

theorem encodeInt_ne_nil (n : ℕ) : encodeInt n ≠ [] := by
  unfold encodeInt
  split <;> exact List.cons_ne_nil _ _

/-- An encoded number is read back, and its length is told. -/
theorem consumeInt_encodeInt (n : ℕ) (h : n < 2 ^ 32) (rest : Bytes) :
    consumeInt (encodeInt n ++ rest) = some (n, (encodeInt n).length) := by
  unfold encodeInt
  split
  next hn =>
    have htoNat : (UInt8.ofNat n).toNat = n :=
      UInt8.toNat_ofNat_of_lt' (by norm_num [UInt8.size]; omega)
    simp [consumeInt, htoNat, hn.2]
  next =>
    have hlen : (bigEndian n).length ≤ 4 := (length_bigEndian_le_iff 4 n).mpr (by norm_num; omega)
    have htoNat : (UInt8.ofNat (128 + (bigEndian n).length)).toNat = 128 + (bigEndian n).length :=
      UInt8.toNat_ofNat_of_lt' (by norm_num [UInt8.size]; omega)
    rw [List.cons_append, consumeInt, htoNat, if_neg (by omega),
      if_pos ⟨by omega, by simp⟩, Nat.add_sub_cancel_left, List.take_left,
      bigEndianToInt_bigEndian, List.length_cons]

theorem consumeInts_flatMap (l : List ℕ) (h : ∀ n ∈ l, n < 2 ^ 32) (k : ℕ)
    (hk : (l.flatMap encodeInt).length ≤ k) : consumeInts k (l.flatMap encodeInt) = some l := by
  induction l generalizing k with
  | nil => cases k <;> rfl
  | cons n l ih =>
      obtain ⟨hn, hrest⟩ := List.forall_mem_cons.mp h
      have hpos := List.length_pos_iff.mpr (encodeInt_ne_nil n)
      rw [List.flatMap_cons] at hk ⊢
      rw [List.length_append] at hk
      obtain ⟨k, rfl⟩ := Nat.exists_eq_succ_of_ne_zero (n := k) (by omega)
      rw [consumeInts]
      · simp only [consumeInt_encodeInt n hn, List.drop_left, ih hrest k (by omega),
          Option.map_some]
      · exact fun hnil => encodeInt_ne_nil n (List.append_eq_nil_iff.mp hnil).1

theorem length_encodeInts (l : List ℕ) :
    (encodeInts l).length = 1 + (l.map fun n => (encodeInt n).length).sum := by
  rw [encodeInts, List.length_cons, List.length_flatMap, Nat.add_comm]

/-- A short list of numbers is read back, whatever follows it. -/
theorem decodeInts_encodeInts (l : List ℕ) (h : ∀ n ∈ l, n < 2 ^ 32) (hlen : l.length ≤ 3)
    (rest : Bytes) : decodeInts (encodeInts l ++ rest) = some l := by
  have hsum : (l.flatMap encodeInt).length ≤ l.length * 5 := by
    rw [List.length_flatMap]
    have hlength : (l.map fun n => (encodeInt n).length).length = l.length := List.length_map _
    rw [← hlength]
    apply List.sum_le_card_nsmul
    intro x hx
    obtain ⟨n, hn, rfl⟩ := List.mem_map.mp hx
    exact length_encodeInt 4 n ((h n hn).trans_le (by norm_num))
  have htoNat : (UInt8.ofNat (192 + (l.flatMap encodeInt).length)).toNat =
      192 + (l.flatMap encodeInt).length :=
    UInt8.toNat_ofNat_of_lt' (by rw [UInt8.size]; omega)
  rw [encodeInts, List.cons_append, decodeInts, htoNat, Nat.add_sub_cancel_left,
    if_pos ⟨by omega, by omega, by rw [List.length_append]; omega⟩, List.take_left,
    consumeInts_flatMap l h _ le_rfl,
    Option.map_some, List.take_of_length_le hlen]

end ShortRlp

/-- RLP as far as it is used. -/
@[reducible] def shortRlp : Rlp where
  encodeInt := ShortRlp.encodeInt
  encodeInts := ShortRlp.encodeInts
  consumeInt := ShortRlp.consumeInt
  decodeInts := ShortRlp.decodeInts
  length_encodeInt k n _ := ShortRlp.length_encodeInt k n
  encodeInt_ne_nil := ShortRlp.encodeInt_ne_nil
  length_encodeInts l _ _ := ShortRlp.length_encodeInts l
  consumeInt_encodeInt := ShortRlp.consumeInt_encodeInt
  decodeInts_encodeInts := ShortRlp.decodeInts_encodeInts

end Hgfrr.Multiplexing
