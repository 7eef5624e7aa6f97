import Hgfrr.Multiplexer.Chunks

/-!
# The frame cipher of both sides

The receiver goes through the states of the sender's cipher: what was encrypted from a
state is decrypted from it, and both come to the same next state. After one handshake
the egress of each side begins as the ingress of the other.
-/

namespace Hgfrr.Multiplexing

open Effects

theorem sxor_of_length {s1 s2 : Bytes} (h : s1.length = s2.length) :
    sxor s1 s2 = .ok (List.zipWith (· ^^^ ·) s1 s2) := require_bind h _

namespace FrameCipher

variable [Aes] {c : FrameCipher} {data header frame seed : Bytes} {n : ℕ}

@[simp] theorem length_crypt (aesSecret : Bytes) (i : ℕ) (data : Bytes) :
    (crypt aesSecret i data).length = data.length := by
  induction data generalizing i with
  | nil => rfl
  | cons byte data ih => rw [crypt, List.length_cons, ih, List.length_cons]

/-- The same stream takes the encryption away again. -/
@[simp] theorem crypt_crypt (aesSecret : Bytes) (i : ℕ) (data : Bytes) :
    crypt aesSecret i (crypt aesSecret i data) = data := by
  induction data generalizing i with
  | nil => rfl
  | cons byte data ih =>
      rw [crypt, crypt, ih, UInt8.xor_assoc, UInt8.xor_self, UInt8.xor_zero]

/-- Bytes went through the stream. -/
def advance (c : FrameCipher) (n : ℕ) : FrameCipher := { c with position := c.position + n }

/-- Bytes went into the hash. -/
def absorb (c : FrameCipher) (data : Bytes) : FrameCipher :=
  { c with hashed := c.hashed ++ data }

/-- Encrypting moves the key stream on. -/
theorem outcome_aes (data : Bytes) (c : FrameCipher) :
    outcome (aes data) c = (.ok (crypt c.aesSecret c.position data), c.advance data.length) := rfl

variable [Sha3]

omit [Aes] in
/-- The digest of all that was hashed so far. -/
theorem outcome_mac (data : Bytes) (c : FrameCipher) :
    outcome (mac data) c = (.ok (Sha3.sha3 (c.hashed ++ data)), c.absorb data) := rfl

/-- What goes into the hash for a MAC. -/
def macInput (c : FrameCipher) (seed : Bytes) : Bytes :=
  List.zipWith (· ^^^ ·) (c.macEnc ((Sha3.sha3 c.hashed).take 16)) seed

/-- The next MAC. -/
def macOf (c : FrameCipher) (seed : Bytes) : Bytes :=
  (Sha3.sha3 (c.hashed ++ c.macInput seed)).take 16

omit [Aes] in
theorem length_take_sha3 (data : Bytes) : ((Sha3.sha3 data).take 16).length = 16 := by
  rw [List.length_take, Sha3.length_sha3]
  rfl

@[simp] theorem length_macOf (c : FrameCipher) (seed : Bytes) : (c.macOf seed).length = 16 :=
  length_take_sha3 _

/-- One step of the chained digests. -/
theorem outcome_nextMac (hseed : seed.length = 16) (c : FrameCipher) :
    outcome (nextMac seed) c = (.ok (c.macOf seed), c.absorb (c.macInput seed)) := by
  have hlength : (c.macEnc ((Sha3.sha3 c.hashed).take 16)).length = seed.length := by
    rw [macEnc, Aes.length_encrypt _ _ c.length_macSecret (length_take_sha3 _), hseed]
  have hnil : c.absorb [] = c := by
    rw [absorb, List.append_nil]
  rw [nextMac, outcome_bind, outcome_mac, hnil, List.append_nil]
  dsimp only
  rw [outcome_bind, outcome_get]
  dsimp only
  rw [outcome_bind, outcome_ofExcept, sxor_of_length hlength]
  rfl

/-! ## Headers -/

/-- The bytes of a header with its MAC. -/
def sealedHeader (c : FrameCipher) (header : Bytes) : Bytes :=
  crypt c.aesSecret c.position header ++ c.macOf (crypt c.aesSecret c.position header)

def afterHeader (c : FrameCipher) (header : Bytes) : FrameCipher :=
  (c.absorb (c.macInput (crypt c.aesSecret c.position header))).advance header.length

/-- A sealed header takes 32 bytes. -/
theorem length_sealedHeader (c : FrameCipher) (hheader : header.length = 16) :
    (c.sealedHeader header).length = 32 := by
  rw [sealedHeader, List.length_append, length_crypt, length_macOf, hheader]

/-- The side that reads opens the header that was sealed in the same state. -/
theorem outcome_decryptHeader (c : FrameCipher) (hheader : header.length = 16) :
    outcome (decryptHeader (c.sealedHeader header)) c = (.ok header, c.afterHeader header) := by
  have hcrypt := length_crypt c.aesSecret c.position header
  have htake : (c.sealedHeader header).take 16 = crypt c.aesSecret c.position header := by
    rw [sealedHeader, ← hheader, ← hcrypt, List.take_left]
  have hdrop : ((c.sealedHeader header).drop 16).take 16 =
      c.macOf (crypt c.aesSecret c.position header) := by
    rw [sealedHeader, ← hheader, ← hcrypt, List.drop_left, hcrypt, hheader]
    exact List.take_of_length_le (length_macOf c _).le
  rw [decryptHeader, outcome_bind, outcome_ofExcept, require,
    if_pos (length_sealedHeader c hheader)]
  dsimp only
  rw [htake, hdrop, outcome_bind, outcome_nextMac (hcrypt.trans hheader)]
  dsimp only
  rw [if_pos rfl, outcome_aes, length_crypt]
  exact congrArg (fun header' => (Except.ok header', _)) (crypt_crypt _ _ _)

/-! ## Bodies -/

/-- What the MAC of a body is made from. -/
def bodySeed (c : FrameCipher) (frame : Bytes) : Bytes :=
  (Sha3.sha3 (c.hashed ++ crypt c.aesSecret c.position frame)).take 16

/-- The bytes of a body with its MAC. -/
def sealedBody (c : FrameCipher) (frame : Bytes) : Bytes :=
  crypt c.aesSecret c.position frame ++
    (c.absorb (crypt c.aesSecret c.position frame)).macOf (c.bodySeed frame)

def afterBody (c : FrameCipher) (frame : Bytes) : FrameCipher :=
  ((c.absorb (crypt c.aesSecret c.position frame)).absorb
    ((c.absorb (crypt c.aesSecret c.position frame)).macInput (c.bodySeed frame))).advance
      frame.length

/-- A sealed body is longer by a digest. -/
theorem length_sealedBody (c : FrameCipher) (frame : Bytes) :
    (c.sealedBody frame).length = frame.length + 16 := by
  rw [sealedBody, List.length_append, length_crypt, length_macOf]

/-- The side that reads opens the body, whatever follows it. -/
theorem outcome_decryptBody (c : FrameCipher) (hframe : frame.length = ceil16 n) (rest : Bytes) :
    outcome (decryptBody (c.sealedBody frame ++ rest) n) c =
      (.ok (frame.take n), c.afterBody frame) := by
  have hcrypt := length_crypt c.aesSecret c.position frame
  have hlength := length_sealedBody c frame
  have htake : (c.sealedBody frame ++ rest).take (ceil16 n) =
      crypt c.aesSecret c.position frame := by
    rw [sealedBody, List.append_assoc, ← hframe, ← hcrypt, List.take_left]
  have hdrop : ((c.sealedBody frame ++ rest).drop (ceil16 n)).take 16 =
      (c.absorb (crypt c.aesSecret c.position frame)).macOf (c.bodySeed frame) := by
    rw [sealedBody, List.append_assoc, ← hframe, ← hcrypt, List.drop_left]
    exact List.take_left' (length_macOf _ _)
  have hlong : ¬(c.sealedBody frame ++ rest).length < ceil16 n + 16 := by
    rw [List.length_append, hlength, hframe]
    omega
  rw [decryptBody]
  dsimp only
  rw [if_neg hlong, htake, hdrop, outcome_bind, outcome_ofExcept, require,
    if_pos (length_macOf _ _)]
  dsimp only
  rw [outcome_bind, outcome_mac]
  dsimp only
  rw [outcome_bind, outcome_nextMac (length_take_sha3 _)]
  dsimp only
  rw [bodySeed, if_pos rfl, outcome_bind, outcome_aes, length_crypt]
  exact congrArg (fun frame' => (Except.ok (List.take n frame'), _)) (crypt_crypt _ _ _)

/-- A frame is the sealed header, then the sealed body. -/
theorem outcome_encrypt (c : FrameCipher) (hheader : header.length = 16)
    (hframe : frame.length % 16 = 0) :
    outcome (encrypt header frame) c =
      (.ok (c.sealedHeader header ++ (c.afterHeader header).sealedBody frame),
        (c.afterHeader header).afterBody frame) := by
  have hcrypt : ∀ i data, (crypt c.aesSecret i data).length = data.length :=
    fun i data => length_crypt c.aesSecret i data
  rw [encrypt, outcome_bind, outcome_ofExcept, require, if_pos hheader]
  dsimp only
  rw [outcome_bind, outcome_ofExcept, require, if_pos hframe]
  dsimp only
  rw [outcome_bind, outcome_aes]
  dsimp only
  rw [outcome_bind, outcome_ofExcept, require, if_pos ((hcrypt _ _).trans hheader)]
  dsimp only
  rw [outcome_bind, outcome_nextMac ((hcrypt _ _).trans hheader)]
  dsimp only
  rw [outcome_bind, outcome_aes]
  dsimp only
  rw [outcome_bind, outcome_ofExcept, require, if_pos (length_crypt _ _ _)]
  dsimp only
  rw [outcome_bind, outcome_mac]
  dsimp only
  rw [outcome_bind, outcome_nextMac (length_take_sha3 _)]
  dsimp only
  rw [outcome_pure, sealedHeader, sealedBody, ← List.append_assoc]
  rfl

end FrameCipher

/-! ## One handshake -/

namespace RLPxSession

variable [Sha3]

/-- Two sessions after the same handshake, one of them its initiator. -/
def SameHandshake (one other : RLPxSession) : Prop :=
  ∃ h isInitiator, setupCipher h isInitiator = .ok one ∧ setupCipher h (!isInitiator) = .ok other

/-- What one side writes the other side reads from the same state. -/
theorem SameHandshake.egress_eq {one other : RLPxSession} (h : SameHandshake one other) :
    one.egress = other.ingress := by
  obtain ⟨h, isInitiator, hone, hother⟩ := h
  simp only [setupCipher, require_bind_eq_ok] at hone hother
  obtain ⟨-, -, -, -, hone⟩ := hone
  obtain ⟨-, -, -, -, hother⟩ := hother
  obtain ⟨seed1, hseed1, hone⟩ := Except.bind_eq_ok.mp hone
  obtain ⟨seed2, hseed2, hone⟩ := Except.bind_eq_ok.mp hone
  obtain ⟨seed1', hseed1', hother⟩ := Except.bind_eq_ok.mp hother
  obtain ⟨seed2', hseed2', hother⟩ := Except.bind_eq_ok.mp hother
  obtain rfl := Except.ok.inj (hseed1.symm.trans hseed1')
  obtain rfl := Except.ok.inj (hseed2.symm.trans hseed2')
  obtain rfl := Except.ok.inj hone
  obtain rfl := Except.ok.inj hother
  cases isInitiator <;> rfl

/-- The nonces have the size of the hash. -/
theorem setupCipher_isSome {h : Handshake} (hresponder : h.responderNonce.length = 32)
    (hinitiator : h.initiatorNonce.length = 32) (hinit : h.authInit ≠ []) (hack : h.authAck ≠ [])
    (isInitiator : Bool) : (setupCipher h isInitiator).toOption.isSome := by
  have hne : ∀ {l : Bytes}, l.length = 32 → l ≠ [] := fun hlength =>
    List.ne_nil_of_length_pos (hlength ▸ by norm_num)
  have hsxor : ∀ {seed nonce : Bytes}, nonce.length = 32 →
      sxor (Sha3.sha3 seed) nonce = .ok (List.zipWith (· ^^^ ·) (Sha3.sha3 seed) nonce) :=
    fun hlength => sxor_of_length (by rw [Sha3.length_sha3, hlength])
  rw [setupCipher, require_bind (hne hresponder), require_bind (hne hinitiator),
    require_bind hinit, require_bind hack]
  dsimp only
  rw [hsxor hresponder, hsxor hinitiator]
  rfl

end RLPxSession

section Witness

attribute [local instance] keccakSha3

def handshake : Handshake := ⟨[1], List.replicate 32 2, List.replicate 32 3, [4], [5]⟩

/-- The two sides of a handshake. -/
def sessionOf (isInitiator : Bool) : RLPxSession :=
  (RLPxSession.setupCipher handshake isInitiator).toOption.get
    (RLPxSession.setupCipher_isSome rfl rfl (by decide) (by decide) isInitiator)

theorem sameHandshake_sessionOf : RLPxSession.SameHandshake (sessionOf true) (sessionOf false) := by
  have hget : ∀ (r : Except Error RLPxSession) (h : r.toOption.isSome),
      r = .ok (r.toOption.get h) := by
    rintro (e | session) h
    · exact absurd h Bool.false_ne_true
    · rfl
  exact ⟨handshake, true, hget _ _, hget _ _⟩

end Witness

end Hgfrr.Multiplexing
