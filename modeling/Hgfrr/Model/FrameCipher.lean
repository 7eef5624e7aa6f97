import Hgfrr.Foundation.Effects
import Hgfrr.Foundation.Rijndael
import Hgfrr.Model.Bytes

/-!
# The frame cipher

What a session writes after the handshake is encrypted with AES in counter mode, and a
hash that goes on over all that is written gives a MAC for each header and each body.

The two directions of a session are apart. A direction is there once the cipher is set
up, so the session is ready.
-/

namespace Hgfrr.Multiplexing

open Effects

inductive Error
  | assertion
  | recursion
  | key
  | index
  | rlp
  | deserialization (text : String)
  | multiplexer (text : String)
  | authentication (text : String)
  | format (text : String)
deriving DecidableEq

def require (p : Prop) [Decidable p] : Except Error Unit :=
  if p then .ok () else .error .assertion

def ceil16 (x : ℕ) : ℕ := if x % 16 = 0 then x else x + 16 - x % 16

def sxor (s1 s2 : Bytes) : Except Error Bytes := do
  require (s1.length = s2.length)
  return List.zipWith (· ^^^ ·) s1 s2

/-- AES on one block, with keys of 256 bits. -/
class Aes where
  encrypt : Bytes → Bytes → Bytes
  length_encrypt (key block : Bytes) (hkey : key.length = 32) (hblock : block.length = 16) :
    (encrypt key block).length = 16

@[reducible] def rijndaelAes : Aes :=
  ⟨Rijndael.encrypt, fun key block _ _ => Rijndael.length_encrypt key block⟩

/-- One direction of a session: `aes_enc` and `egress_mac`, or `aes_dec` and
`ingress_mac`, as the bytes that went through them. -/
structure FrameCipher where
  aesSecret : Bytes
  macSecret : Bytes
  position : ℕ
  hashed : Bytes
  length_aesSecret : aesSecret.length = 32
  length_macSecret : macSecret.length = 32
deriving DecidableEq

namespace FrameCipher

/-- The blocks that aes-256-ctr encrypts are counted from the IV, which is zero. -/
def counterBlock (n : ℕ) : Bytes := (List.range 16).map fun i => .ofNat (n / 256 ^ (15 - i))

variable [Aes]

def keystream (aesSecret : Bytes) (i : ℕ) : UInt8 :=
  (Aes.encrypt aesSecret (counterBlock (i / 16))).getD (i % 16) 0

/-- Encryption and decryption from a position on. -/
def crypt (aesSecret : Bytes) : ℕ → Bytes → Bytes
  | _, [] => []
  | i, byte :: data => (byte ^^^ keystream aesSecret i) :: crypt aesSecret (i + 1) data

abbrev Action := Effect Error FrameCipher

def aes (data : Bytes) : Action Bytes := do
  let c ← get
  modify fun c => { c with position := c.position + data.length }
  return crypt c.aesSecret c.position data

def macEnc (c : FrameCipher) (block : Bytes) : Bytes := Aes.encrypt c.macSecret block

variable [Sha3]

omit [Aes] in
/-- The hash is updated, and its digest is that of all so far. -/
def mac (data : Bytes) : Action Bytes := do
  modify fun c => { c with hashed := c.hashed ++ data }
  let c ← get
  return Sha3.sha3 c.hashed

/-- `mac(sxor(self.mac_enc(mac()[:16]), seed))[:16]`. -/
def nextMac (seed : Bytes) : Action Bytes := do
  let digest ← mac []
  let c ← get
  let data ← Effects.ofExcept (sxor (c.macEnc (digest.take 16)) seed)
  let digest ← mac data
  return digest.take 16

def encrypt (header frame : Bytes) : Action Bytes := do
  Effects.ofExcept (require (header.length = 16))
  Effects.ofExcept (require (frame.length % 16 = 0))
  let headerCiphertext ← aes header
  Effects.ofExcept (require (headerCiphertext.length = 16))
  let headerMac ← nextMac headerCiphertext
  let frameCiphertext ← aes frame
  Effects.ofExcept (require (frameCiphertext.length = frame.length))
  let fmacSeed ← mac frameCiphertext
  let frameMac ← nextMac (fmacSeed.take 16)
  return headerCiphertext ++ headerMac ++ frameCiphertext ++ frameMac

def decryptHeader (data : Bytes) : Action Bytes := do
  Effects.ofExcept (require (data.length = 32))
  let headerCiphertext := data.take 16
  let headerMac := (data.drop 16).take 16
  let expectedHeaderMac ← nextMac headerCiphertext
  if expectedHeaderMac = headerMac then aes headerCiphertext
  else throw (.authentication "invalid header mac")

def decryptBody (data : Bytes) (bodySize : ℕ) : Action Bytes := do
  let readSize := ceil16 bodySize
  if data.length < readSize + 16 then throw (.format "insufficient body length")
  else do
    let frameCiphertext := data.take readSize
    let frameMac := (data.drop readSize).take 16
    Effects.ofExcept (require (frameMac.length = 16))
    let fmacSeed ← mac frameCiphertext
    let expectedFrameMac ← nextMac (fmacSeed.take 16)
    if frameMac = expectedFrameMac then do
      let frame ← aes frameCiphertext
      return frame.take bodySize
    else throw (.authentication "invalid frame mac")

/-- A computation on the frame cipher where there is one. -/
def onCipher {α : Type} (cipher : FrameCipher) (m : Action α) :
    Effect Error (Option FrameCipher) α :=
  onPart (fun _ => cipher) (fun cipher _ => some cipher) m

end FrameCipher

/-! ## Setting up -/

/-- What both sides have after the handshake. The shared secret comes from the ephemeral
keys. -/
structure Handshake where
  ecdheSharedSecret : Bytes
  initiatorNonce : Bytes
  responderNonce : Bytes
  authInit : Bytes
  authAck : Bytes

/-- The directions of a session that is ready. -/
structure RLPxSession where
  egress : FrameCipher
  ingress : FrameCipher
deriving DecidableEq

namespace RLPxSession

variable [Sha3]

def setupCipher (h : Handshake) (isInitiator : Bool) : Except Error RLPxSession := do
  require (h.responderNonce ≠ [])
  require (h.initiatorNonce ≠ [])
  require (h.authInit ≠ [])
  require (h.authAck ≠ [])
  let sharedSecret :=
    Sha3.sha3 (h.ecdheSharedSecret ++ Sha3.sha3 (h.responderNonce ++ h.initiatorNonce))
  let aesSecret := Sha3.sha3 (h.ecdheSharedSecret ++ sharedSecret)
  let macSecret := Sha3.sha3 (h.ecdheSharedSecret ++ aesSecret)
  let seed1 ← sxor macSecret h.responderNonce
  let seed2 ← sxor macSecret h.initiatorNonce
  let cipher (hashed : Bytes) : FrameCipher :=
    ⟨aesSecret, macSecret, 0, hashed, Sha3.length_sha3 _, Sha3.length_sha3 _⟩
  let mac1 := cipher (seed1 ++ h.authInit)
  let mac2 := cipher (seed2 ++ h.authAck)
  return if isInitiator then ⟨mac1, mac2⟩ else ⟨mac2, mac1⟩

end RLPxSession

end Hgfrr.Multiplexing
