import Hgfrr.Foundation.Keccak

/-!
# Byte strings
-/

namespace Hgfrr

/-- `bytes`. -/
abbrev Bytes := List UInt8

/-- `big_endian_to_int`. -/
def bigEndianToInt (s : Bytes) : ℕ := s.foldl (fun n byte => 256 * n + byte.toNat) 0

@[simp] theorem bigEndianToInt_nil : bigEndianToInt [] = 0 := rfl

theorem bigEndianToInt_concat (s : Bytes) (byte : UInt8) :
    bigEndianToInt (s ++ [byte]) = 256 * bigEndianToInt s + byte.toNat := by
  simp [bigEndianToInt]

theorem bigEndianToInt_lt (s : Bytes) : bigEndianToInt s < 256 ^ s.length := by
  induction s using List.reverseRecOn with
  | nil => simp
  | append_singleton s byte ih =>
      have hbyte := byte.toNat_lt
      rw [bigEndianToInt_concat, List.length_append, List.length_singleton, pow_succ]
      omega

/-- `crypto.sha3`. -/
class Sha3 where
  sha3 : Bytes → Bytes
  length_sha3 : ∀ seed, (sha3 seed).length = 32

@[reducible] def keccakSha3 : Sha3 := ⟨Keccak.hash256, Keccak.length_hash256⟩

end Hgfrr
