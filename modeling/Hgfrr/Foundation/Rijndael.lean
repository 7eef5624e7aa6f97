import Mathlib

/-!
# Rijndael

AES with keys of 256 bits, on one block.
-/

namespace Rijndael

def xtime (x : UInt8) : UInt8 := if x &&& 0x80 = 0 then x <<< 1 else x <<< 1 ^^^ 0x1b

def mulWithin : ℕ → UInt8 → UInt8 → UInt8
  | 0, _, _ => 0
  | n + 1, x, y => (if y &&& 1 = 0 then 0 else x) ^^^ mulWithin n (xtime x) (y >>> 1)

/-- The product in the field of bytes. -/
def mul : UInt8 → UInt8 → UInt8 := mulWithin 8

/-- The inverse is the power 254. -/
def inv (x : UInt8) : UInt8 :=
  (List.range 8).foldl (fun y i => mul (if i = 7 then 1 else x) (mul y y)) 1

def rotl (x : UInt8) (n : ℕ) : UInt8 := x <<< .ofNat n ||| x >>> .ofNat (8 - n)

def subByte (x : UInt8) : UInt8 :=
  let y := inv x
  y ^^^ rotl y 1 ^^^ rotl y 2 ^^^ rotl y 3 ^^^ rotl y 4 ^^^ 0x63

def xorBytes : List UInt8 → List UInt8 → List UInt8 := List.zipWith (· ^^^ ·)

/-- The words of the expanded key. -/
def expandKey (key : List UInt8) : List (List UInt8) :=
  (List.range 52).foldl
    (fun words i =>
      let last := words.getD (i + 7) []
      let word :=
        if i % 8 = 0 then
          xorBytes ((last.rotateLeft 1).map subByte)
            [(List.range (i / 8)).foldl (fun x _ => xtime x) 1, 0, 0, 0]
        else if i % 8 = 4 then last.map subByte
        else last
      words ++ [xorBytes (words.getD i []) word])
    ((List.range 8).map fun i => (key.drop (4 * i)).take 4)

example : subByte 0x53 = 0xed := by decide +kernel

/-- The bytes of a block stand in columns of four. -/
def byteAt (block : List UInt8) (i : ℕ) : UInt8 := block.getD i 0

def addRoundKey (words : List (List UInt8)) (round : ℕ) (block : List UInt8) : List UInt8 :=
  let roundKey := ((words.drop (4 * round)).take 4).flatten
  (List.range 16).map fun i => byteAt block i ^^^ byteAt roundKey i

def shiftRows (block : List UInt8) : List UInt8 :=
  (List.range 16).map fun i => byteAt block ((i + 4 * (i % 4)) % 16)

def mixColumns (block : List UInt8) : List UInt8 :=
  (List.range 16).map fun i =>
    let row (n : ℕ) := byteAt block (i / 4 * 4 + (i + n) % 4)
    mul 2 (row 0) ^^^ mul 3 (row 1) ^^^ row 2 ^^^ row 3

def encrypt (key block : List UInt8) : List UInt8 :=
  let words := expandKey key
  let rounds := (List.range 13).foldl
    (fun block i => addRoundKey words (i + 1) (mixColumns (shiftRows (block.map subByte))))
    (addRoundKey words 0 block)
  addRoundKey words 14 (shiftRows (rounds.map subByte))

theorem length_encrypt (key block : List UInt8) : (encrypt key block).length = 16 := by
  simp [encrypt, addRoundKey]

end Rijndael
