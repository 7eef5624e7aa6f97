import Mathlib

/-!
# Keccak

The hash with 256 bits, with the padding that came before that of SHA-3.
-/

namespace Keccak

/-- The lanes of the sponge, the lane `(x, y)` at `x + 5 * y`. -/
abbrev State := List UInt64

def lane (a : State) (i : ℕ) : UInt64 := a.getD i 0

def rotl (x : UInt64) (n : ℕ) : UInt64 := x <<< .ofNat n ||| x >>> .ofNat (64 - n)

def rotations : List ℕ :=
  [0, 1, 62, 28, 27, 36, 44, 6, 55, 20, 3, 10, 43, 25, 39, 41, 45, 15, 21, 8, 18, 2, 61, 56, 14]

def roundConstants : List UInt64 :=
  [0x0000000000000001, 0x0000000000008082, 0x800000000000808a, 0x8000000080008000,
    0x000000000000808b, 0x0000000080000001, 0x8000000080008081, 0x8000000000008009,
    0x000000000000008a, 0x0000000000000088, 0x0000000080008009, 0x000000008000000a,
    0x000000008000808b, 0x800000000000008b, 0x8000000000008089, 0x8000000000008003,
    0x8000000000008002, 0x8000000000000080, 0x000000000000800a, 0x800000008000000a,
    0x8000000080008081, 0x8000000000008080, 0x0000000080000001, 0x8000000080008008]

/-- The parities of the columns go to their neighbours. -/
def theta (a : State) : State :=
  let columns := (List.range 5).map fun x =>
    (List.range 5).foldl (fun sum y => sum ^^^ lane a (x + 5 * y)) 0
  let effects := (List.range 5).map fun x =>
    lane columns ((x + 4) % 5) ^^^ rotl (lane columns ((x + 1) % 5)) 1
  (List.range 25).map fun i => lane a i ^^^ lane effects (i % 5)

/-- The lanes are rotated and change places. -/
def rhoPi (a : State) : State :=
  (List.range 25).map fun i =>
    let j := (i % 5 + 3 * (i / 5)) % 5 + 5 * (i % 5)
    rotl (lane a j) (rotations.getD j 0)

def chi (a : State) : State :=
  (List.range 25).map fun i =>
    lane a i ^^^ (~~~ lane a ((i + 1) % 5 + i / 5 * 5) &&& lane a ((i + 2) % 5 + i / 5 * 5))

def round (a : State) (constant : UInt64) : State :=
  (chi (rhoPi (theta a))).modify 0 (· ^^^ constant)

def permute (a : State) : State := roundConstants.foldl round a

/-- The bytes of a block in one hash. -/
def rate : ℕ := 136

def laneOfBytes (bytes : List UInt8) : UInt64 :=
  bytes.foldr (fun byte x => x <<< 8 ||| byte.toUInt64) 0

def bytesOfLane (x : UInt64) : List UInt8 :=
  (List.range 8).map fun i => (x >>> .ofNat (8 * i)).toUInt8

def absorbBlock (a : State) (block : List UInt8) : State :=
  permute ((List.range 25).map fun i => lane a i ^^^ laneOfBytes ((block.drop (8 * i)).take 8))

def padding (length : ℕ) : List UInt8 :=
  if length % rate = rate - 1 then [0x81]
  else 0x01 :: List.replicate (rate - 2 - length % rate) 0 ++ [0x80]

def absorb (data : List UInt8) : State :=
  let padded := data ++ padding data.length
  (List.range (padded.length / rate)).foldl
    (fun a i => absorbBlock a ((padded.drop (rate * i)).take rate)) (List.replicate 25 0)

def hash256 (data : List UInt8) : List UInt8 :=
  (List.range 4).flatMap fun i => bytesOfLane (lane (absorb data) i)

theorem length_hash256 (data : List UInt8) : (hash256 data).length = 32 := by
  simp [hash256, bytesOfLane]

/-- The hash of nothing. -/
example : hash256 [] =
    [0xc5, 0xd2, 0x46, 0x01, 0x86, 0xf7, 0x23, 0x3c, 0x92, 0x7e, 0x7d, 0xb2, 0xdc, 0xc7, 0x03, 0xc0,
      0xe5, 0x00, 0xb6, 0x53, 0xca, 0x82, 0x27, 0x3b, 0x7b, 0xfa, 0xd8, 0x04, 0x5d, 0x85, 0xa4,
      0x70] := by
  decide +kernel

end Keccak
