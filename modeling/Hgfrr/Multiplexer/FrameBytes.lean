import Hgfrr.Multiplexer.Ciphers
import Hgfrr.Multiplexer.Decoding

/-!
# Frames as bytes

The bytes of a frame tell the decoder its size, its header data and its body, also when
they are encrypted: the cipher of the receiver goes through the states of the sender's,
so frames that were written one after the other can be read one after the other.
-/

namespace Hgfrr.Multiplexing

open Effects

theorem length_packSize (n : ℕ) : (packSize n).length = 3 := rfl

/-- A size of three bytes is read back. -/
theorem bigEndianToInt_packSize {n : ℕ} (h : n < 256 ^ 3) : bigEndianToInt (packSize n) = n := by
  have htoNat : ∀ m : ℕ, (UInt8.ofNat m).toNat = m % 256 := fun m => UInt8.toNat_ofNat' ..
  show 256 * (256 * (256 * 0 + (UInt8.ofNat (n / 256 ^ 2)).toNat) +
    (UInt8.ofNat (n / 256)).toNat) + (UInt8.ofNat n).toNat = n
  rw [htoNat, htoNat, htoNat]
  omega

/-- Padding to one block. -/
theorem rzpad16_eq {data : Bytes} (hpos : 0 < data.length) (hlt : data.length < 16) :
    rzpad16 data = data ++ List.replicate (16 - data.length) 0 := by
  have hmod : data.length % 16 = data.length := Nat.mod_eq_of_lt hlt
  rw [rzpad16, hmod, if_pos hpos.ne']

namespace Frame

variable [Rlp] {f : Frame} {sid : ℕ}

/-- A frame that goes over the wire. -/
structure Sendable (f : Frame) (sid : ℕ) : Prop where
  cmdId : f.cmdId < 256
  protocolId : f.protocolId < 2 ^ 16
  sequenceId : f.sequenceId = some sid
  sid : sid < 2 ^ 16
  frameSize : f.frameSize ≤ 256 ^ 3
  totalPayloadSize : ∀ total ∈ f.totalPayloadSize, total < 2 ^ 32

/-- The numbers of the header of a frame with a sequence id. -/
def ints (f : Frame) (sid : ℕ) : List ℕ := f.protocolId :: sid :: f.totalPayloadSize.toList

/-- The numbers of the header. -/
theorem Sendable.headerInts (h : f.Sendable sid) : f.headerInts = .ok (f.ints sid) := by
  rw [Frame.headerInts, h.sequenceId, ints]
  rcases f.totalPayloadSize with _ | total <;> rfl

theorem Sendable.ints_lt (h : f.Sendable sid) : ∀ n ∈ f.ints sid, n < 2 ^ 32 := by
  have hprotocol := h.protocolId
  have hsid := h.sid
  rw [ints, List.forall_mem_cons, List.forall_mem_cons]
  refine ⟨by omega, by omega, fun n hn => h.totalPayloadSize n (Option.mem_toList.mp hn)⟩

omit [Rlp] in
theorem length_ints (f : Frame) (sid : ℕ) : (f.ints sid).length ≤ 3 := by
  rw [ints]
  rcases f.totalPayloadSize with _ | total
  · exact Nat.le_succ 2
  · exact le_rfl

/-- The header data fits the first block. -/
theorem Sendable.length_encodeInts (h : f.Sendable sid) :
    0 < (Rlp.encodeInts (f.ints sid)).length ∧ (Rlp.encodeInts (f.ints sid)).length ≤ 12 := by
  have hprotocol := Rlp.length_encodeInt 2 f.protocolId (by norm_num)
    (by simpa using h.protocolId)
  have hsid := Rlp.length_encodeInt 2 sid (by norm_num) (by simpa using h.sid)
  have htotal := h.totalPayloadSize
  rw [Rlp.length_encodeInts _ h.ints_lt (length_ints f sid), ints]
  cases hcase : f.totalPayloadSize with
  | none =>
      simp only [Option.toList_none, List.map_cons, List.map_nil, List.sum_cons, List.sum_nil]
      omega
  | some total =>
      have hlength := Rlp.length_encodeInt 4 total (by norm_num)
        (by simpa using htotal total hcase)
      simp only [Option.toList_some, List.map_cons, List.map_nil, List.sum_cons, List.sum_nil]
      omega

theorem Sendable.bodySize_lt (h : f.Sendable sid) : f.bodySize < 256 ^ 3 := by
  have hle := h.frameSize
  have hbody := le_ceil16 f.bodySize
  rw [Frame.frameSize, headerSize, macSize] at hle
  omega

/-- The header of a frame. -/
def headerBytes (f : Frame) (sid : ℕ) : Bytes :=
  packSize f.bodySize ++ Rlp.encodeInts (f.ints sid) ++
    List.replicate (13 - (Rlp.encodeInts (f.ints sid)).length) 0

/-- Headers have a fixed size. -/
theorem Sendable.length_headerBytes (h : f.Sendable sid) :
    (f.headerBytes sid).length = headerSize := by
  have hle := h.length_encodeInts.2
  rw [headerSize, headerBytes, List.length_append, List.length_append, length_packSize,
    List.length_replicate]
  omega

/-- The header is written when its numbers fit. -/
theorem Sendable.header (h : f.Sendable sid) : f.header = .ok (f.headerBytes sid) := by
  obtain ⟨hpos, hle⟩ := h.length_encodeInts
  have hdecode : Rlp.decodeInts (Rlp.encodeInts (f.ints sid)) = some (f.ints sid) := by
    have happend := Rlp.decodeInts_encodeInts (f.ints sid) h.ints_lt (length_ints f sid) []
    rwa [List.append_nil] at happend
  have hpad : rzpad16 (packSize f.bodySize ++ Rlp.encodeInts (f.ints sid)) =
      f.headerBytes sid := by
    rw [rzpad16_eq, headerBytes, List.length_append, length_packSize]
    · congr 2
      omega
    · rw [List.length_append, length_packSize]
      omega
    · rw [List.length_append, length_packSize]
      omega
  rw [Frame.header, require_bind h.protocolId, require_bind, h.headerInts]
  · show (do
      require (Rlp.decodeInts (Rlp.encodeInts (f.ints sid)) = some (f.ints sid))
      require (f.bodySize < 256 ^ 3)
      require ((rzpad16 (packSize f.bodySize ++ Rlp.encodeInts (f.ints sid))).length = headerSize)
      return rzpad16 (packSize f.bodySize ++ Rlp.encodeInts (f.ints sid))) = _
    rw [require_bind hdecode, require_bind h.bodySize_lt, hpad,
      require_bind h.length_headerBytes]
    rfl
  · rw [h.sequenceId]
    rintro _ ⟨⟩
    exact h.sid

theorem length_body (f : Frame) : f.body.length = ceil16 f.bodySize := by
  have hle := le_ceil16 f.bodySize
  rw [body, List.length_append, List.length_append, List.length_replicate, ← bodySize]
  omega

/-- The size of the body is read back. -/
theorem Sendable.bodySizeOf (h : f.Sendable sid) :
    Decoding.bodySizeOf (f.headerBytes sid) = f.bodySize := by
  rw [Decoding.bodySizeOf, headerBytes, List.append_assoc, ← length_packSize f.bodySize,
    List.take_left, bigEndianToInt_packSize h.bodySize_lt]

/-- The header tells how many bytes the frame takes. -/
theorem Sendable.requiredLen (h : f.Sendable sid) :
    Decoding.requiredLen (f.headerBytes sid) = f.frameSize := by
  rw [Decoding.requiredLen, h.bodySizeOf, Frame.frameSize]

/-- The ids and the total size are read back. -/
theorem Sendable.headerData (h : f.Sendable sid) :
    Decoding.headerData (f.headerBytes sid) =
      .ok ⟨f.protocolId, some sid, f.totalPayloadSize⟩ := by
  have hdrop : (f.headerBytes sid).drop 3 = Rlp.encodeInts (f.ints sid) ++
      List.replicate (13 - (Rlp.encodeInts (f.ints sid)).length) 0 := by
    rw [headerBytes, List.append_assoc, ← length_packSize f.bodySize, List.drop_left]
  rw [Decoding.headerData, hdrop,
    Rlp.decodeInts_encodeInts _ h.ints_lt (length_ints f sid), ints]
  have hsid : ∀ n ∈ some sid, n < 2 ^ 16 := by
    rintro _ ⟨⟩
    exact h.sid
  cases hcase : f.totalPayloadSize with
  | none =>
      show (do
        require (∀ n ∈ (none : Option ℕ), n < 2 ^ 32)
        require (f.protocolId < 2 ^ 16)
        require (∀ n ∈ some sid, n < 2 ^ 16)
        return (⟨f.protocolId, some sid, none⟩ : HeaderData)) = _
      rw [require_bind (by simp), require_bind h.protocolId, require_bind hsid]
      rfl
  | some total =>
      show (do
        require (∀ n ∈ some total, n < 2 ^ 32)
        require (f.protocolId < 2 ^ 16)
        require (∀ n ∈ some sid, n < 2 ^ 16)
        return (⟨f.protocolId, some sid, some total⟩ : HeaderData)) = _
      rw [require_bind (hcase ▸ h.totalPayloadSize), require_bind h.protocolId, require_bind hsid]
      rfl

end Frame

/-! ## Headers and bodies with their MACs -/

section Sealing

variable [Aes] [Sha3] {cipher : Option FrameCipher} {header body : Bytes}

/-- The bytes of a header with its MAC, and the cipher after them. -/
def sealHeader (cipher : Option FrameCipher) (header : Bytes) : Bytes × Option FrameCipher :=
  match cipher with
  | none => (header ++ Frame.dummyMac, none)
  | some c => (c.sealedHeader header, some (c.afterHeader header))

/-- The bytes of a body with its MAC, and the cipher after them. -/
def sealBody (cipher : Option FrameCipher) (body : Bytes) : Bytes × Option FrameCipher :=
  match cipher with
  | none => (body ++ Frame.dummyMac, none)
  | some c => (c.sealedBody body, some (c.afterBody body))

theorem length_sealHeader (cipher : Option FrameCipher) (hheader : header.length = 16) :
    (sealHeader cipher header).1.length = 32 := by
  cases cipher with
  | none => rw [sealHeader, List.length_append, hheader]; rfl
  | some c => exact c.length_sealedHeader hheader

theorem length_sealBody (cipher : Option FrameCipher) (body : Bytes) :
    (sealBody cipher body).1.length = body.length + 16 := by
  cases cipher with
  | none => rw [sealBody, List.length_append]; rfl
  | some c => exact c.length_sealedBody body

/-- The header that was sealed is opened in the same state of the cipher, and both sides
go on alike. -/
theorem outcome_decodeHeader (cipher : Option FrameCipher) (hheader : header.length = 16)
    (rest : Bytes) :
    outcome (Decoding.decodeHeader ((sealHeader cipher header).1 ++ rest)) cipher =
      (.ok header, (sealHeader cipher header).2) := by
  have hlength := length_sealHeader cipher hheader
  have hle : Frame.headerSize + Frame.macSize ≤ ((sealHeader cipher header).1 ++ rest).length := by
    rw [List.length_append, hlength]
    exact Nat.le_add_right 32 _
  rw [Decoding.decodeHeader, outcome_bind, outcome_ofExcept, require, if_pos hle]
  dsimp only
  rw [outcome_bind, outcome_get]
  dsimp only
  cases cipher with
  | none =>
      rw [sealHeader, List.append_assoc, outcome_pure, Frame.headerSize, ← hheader, List.take_left]
  | some c =>
      have htake : ((sealHeader (some c) header).1 ++ rest).take 32 = c.sealedHeader header :=
        List.take_left' hlength
      change outcome (c.onCipher (FrameCipher.decryptHeader
        (((sealHeader (some c) header).1 ++ rest).take 32))) (some c) = _
      rw [htake, FrameCipher.onCipher, outcome_onPart, c.outcome_decryptHeader hheader]
      rfl

/-- So is the body. -/
theorem outcome_readBody (cipher : Option FrameCipher) (hheader : header.length = 16)
    (hbody : body.length = ceil16 (Decoding.bodySizeOf header)) :
    outcome (Decoding.readBody
        ((sealHeader cipher header).1 ++ (sealBody (sealHeader cipher header).2 body).1) header)
        (sealHeader cipher header).2 =
      (.ok (header, body.take (Decoding.bodySizeOf header)),
        (sealBody (sealHeader cipher header).2 body).2) := by
  have hle := le_ceil16 (Decoding.bodySizeOf header)
  have hlength : (body.take (Decoding.bodySizeOf header)).length = Decoding.bodySizeOf header := by
    rw [List.length_take, hbody, min_eq_left hle]
  have hdrop : ∀ rest : Bytes, ((sealHeader cipher header).1 ++ rest).drop
      (Frame.headerSize + Frame.macSize) = rest := fun rest =>
    List.drop_left' (length_sealHeader cipher hheader)
  rw [Decoding.readBody, outcome_bind, outcome_get, hdrop]
  cases cipher with
  | none =>
      have htake : (body ++ Frame.dummyMac).take (Decoding.bodySizeOf header) =
          body.take (Decoding.bodySizeOf header) :=
        List.take_append_of_le_length (hbody ▸ hle)
      dsimp only [sealHeader, sealBody]
      rw [htake, outcome_bind, outcome_ofExcept, require, if_pos hlength, List.append_assoc,
        Frame.headerSize, ← hheader, List.take_left]
      rfl
  | some c =>
      have hdecrypt := (c.afterHeader header).outcome_decryptBody hbody []
      rw [List.append_nil] at hdecrypt
      dsimp only [sealHeader, sealBody]
      rw [outcome_bind, FrameCipher.onCipher, outcome_onPart, hdecrypt]
      dsimp only
      rw [outcome_bind, outcome_ofExcept, require, if_pos hlength]
      rfl

end Sealing

/-! ## Writing -/

namespace Frame

variable [Rlp] [Aes] [Sha3] {f : Frame} {sid : ℕ} {cipher cipher' : Option FrameCipher}

/-- The bytes of a frame, and the cipher after them. -/
def encoded (f : Frame) (cipher : Option FrameCipher) (sid : ℕ) : Bytes × Option FrameCipher :=
  ((sealHeader cipher (f.headerBytes sid)).1 ++
      (sealBody (sealHeader cipher (f.headerBytes sid)).2 f.body).1,
    (sealBody (sealHeader cipher (f.headerBytes sid)).2 f.body).2)

theorem Sendable.length_encoded (h : f.Sendable sid) (cipher : Option FrameCipher) :
    (f.encoded cipher sid).1.length = f.frameSize := by
  rw [encoded, List.length_append, length_sealHeader cipher h.length_headerBytes, length_sealBody,
    length_body, Frame.frameSize]
  rfl

/-- `as_bytes` of a frame that is sendable. -/
theorem Sendable.outcome_asBytes (h : f.Sendable sid) (cipher : Option FrameCipher) :
    outcome f.asBytes cipher =
      (.ok (f.encoded cipher sid).1, (f.encoded cipher sid).2) := by
  have hlength := h.length_encoded cipher
  rw [Frame.asBytes, outcome_bind, outcome_get]
  cases cipher with
  | none =>
      have happend : f.headerBytes sid ++ dummyMac ++ f.body ++ dummyMac =
          (f.encoded none sid).1 := List.append_assoc _ _ _
      dsimp only
      rw [outcome_ofExcept, plainBytes, h.header]
      change ((do
        require (f.body.length = ceil16 f.bodySize)
        require ((f.headerBytes sid ++ dummyMac ++ f.body ++ dummyMac).length = f.frameSize)
        return f.headerBytes sid ++ dummyMac ++ f.body ++ dummyMac), none) = _
      rw [happend, require_bind f.length_body, require_bind hlength]
      rfl
  | some c =>
      have hmod : f.body.length % 16 = 0 := by
        rw [length_body, ceil16_eq]
        omega
      dsimp only
      rw [outcome_bind, outcome_ofExcept, h.header]
      dsimp only
      rw [outcome_bind, FrameCipher.onCipher, outcome_onPart,
        c.outcome_encrypt h.length_headerBytes hmod]
      dsimp only
      rw [outcome_bind, outcome_ofExcept, require, if_pos (by exact hlength)]
      rfl

end Frame

section Writing

variable [Rlp] [Aes] [Sha3]

/-- Frames that were written one after the other, with their bytes, from one state of the
cipher to another. -/
inductive Written : Option FrameCipher → List (Frame × Bytes) → Option FrameCipher → Prop
  | nil {cipher : Option FrameCipher} : Written cipher [] cipher
  | cons {cipher cipher' : Option FrameCipher} {f : Frame} {sid : ℕ}
      {items : List (Frame × Bytes)} (h : f.Sendable sid)
      (rest : Written (f.encoded cipher sid).2 items cipher') :
      Written cipher ((f, (f.encoded cipher sid).1) :: items) cipher'

variable {cipher cipher' cipher'' : Option FrameCipher} {items more : List (Frame × Bytes)}

theorem Written.append (h : Written cipher items cipher') (hmore : Written cipher' more cipher'') :
    Written cipher (items ++ more) cipher'' := by
  induction h with
  | nil => exact hmore
  | cons h _ ih => exact .cons h (ih hmore)

/-- The bytes of frames in order. -/
theorem Written.outcome_bytesOf (h : Written cipher items cipher') :
    outcome (Frame.bytesOf (items.map Prod.fst)) cipher =
      (.ok (items.flatMap Prod.snd), cipher') := by
  induction h with
  | nil => rfl
  | cons h _ ih =>
      rw [List.map_cons, Frame.bytesOf, outcome_bind, h.outcome_asBytes]
      dsimp only
      rw [outcome_bind, ih]
      rfl

/-- All frames that wait as one text, if they can be written. -/
theorem Written.outcome_popAllFramesAsBytes {s : Multiplexer} {s' : Sending}
    (h : Written s.egress items cipher')
    (hframes : outcome Sending.popAllFrames s.toSending = (.ok (items.map Prod.fst), s')) :
    outcome Multiplexer.popAllFramesAsBytes s =
      (.ok (items.flatMap Prod.snd), { s with
        toSending := s'
        egress := cipher' }) := by
  rw [Multiplexer.popAllFramesAsBytes, outcome_bind, Multiplexer.sending, outcome_onPart, hframes]
  dsimp only
  rw [Multiplexer.writing, outcome_onPart, h.outcome_bytesOf]

/-- A cipher that is there stays there. -/
theorem Written.isSome (h : Written cipher items cipher') (hcipher : cipher.isSome) :
    cipher'.isSome := by
  induction h with
  | nil => exact hcipher
  | @cons cipher _ f sid _ _ _ ih =>
      obtain ⟨c, rfl⟩ := Option.isSome_iff_exists.mp hcipher
      exact ih rfl

/-- Whatever the state of the cipher, frames that are sendable can be written. -/
theorem exists_written {γ : Type} (frame : γ → Frame) (cipher : Option FrameCipher) {xs : List γ}
    (h : ∀ x ∈ xs, ∃ sid, (frame x).Sendable sid) :
    ∃ (items : List (γ × Bytes)) (cipher' : Option FrameCipher), items.map Prod.fst = xs ∧
      Written cipher (items.map fun item => (frame item.1, item.2)) cipher' := by
  induction xs generalizing cipher with
  | nil => exact ⟨[], cipher, rfl, .nil⟩
  | cons x xs ih =>
      obtain ⟨⟨sid, hx⟩, hrest⟩ := List.forall_mem_cons.mp h
      obtain ⟨items, cipher', rfl, hwritten⟩ := ih ((frame x).encoded cipher sid).2 hrest
      exact ⟨(x, ((frame x).encoded cipher sid).1) :: items, cipher', rfl, .cons hx hwritten⟩

end Writing

/-! ## Reading -/

section Reading

variable [Rlp] [Aes] [Sha3] {d : Decoding} {f : Frame} {sid : ℕ} {bytes : Bytes}
  {cipher : Option FrameCipher} {items : List (Frame × Bytes)} {buffers buffers' : ChunkedBuffers}
  {packet : Option Packet}

omit [Aes] [Sha3] in
/-- What a frame that arrives does to the buffers. -/
def Frame.build (f : Frame) (buffers : ChunkedBuffers) :
    Except Error (Option Packet × ChunkedBuffers) :=
  Decoding.buildPacket ⟨f.protocolId, f.sequenceId, f.totalPayloadSize⟩ (f.encCmdId ++ f.payload)
    buffers

/-- A reader before the first of some frames, or between its header and its body. -/
inductive Decoding.Expects : Decoding → List (Frame × Bytes) → Option FrameCipher → Prop
  | header {buffers : ChunkedBuffers} {before cipher : Option FrameCipher}
      {items : List (Frame × Bytes)} (h : Written before items cipher) :
      Expects ⟨buffers, none, before⟩ items cipher
  | body {buffers : ChunkedBuffers} {before cipher : Option FrameCipher} {f : Frame} {sid : ℕ}
      {items : List (Frame × Bytes)} (h : f.Sendable sid)
      (rest : Written (f.encoded before sid).2 items cipher) :
      Expects ⟨buffers, some (f.headerBytes sid), (sealHeader before (f.headerBytes sid)).2⟩
        ((f, (f.encoded before sid).1) :: items) cipher

theorem Decoding.Expects.written (h : d.Expects items cipher) :
    ∃ before, Written before items cipher := by
  cases h with
  | header h => exact ⟨_, h⟩
  | body h rest => exact ⟨_, .cons h rest⟩

/-- Frames that are written later are expected after the others. -/
theorem Decoding.Expects.append {cipher' : Option FrameCipher} {more : List (Frame × Bytes)}
    (h : d.Expects items cipher) (hmore : Written cipher more cipher') :
    d.Expects (items ++ more) cipher' := by
  cases h with
  | header h => exact .header (h.append hmore)
  | body h rest => exact .body h (rest.append hmore)

theorem Decoding.Expects.need_le (h : d.Expects ((f, bytes) :: items) cipher) :
    framing.need d ≤ bytes.length := by
  cases h with
  | header h =>
      cases h with
      | cons h _ =>
          change 32 ≤ _
          rw [h.length_encoded, Frame.frameSize_eq]
          omega
  | body h rest => exact (h.length_encoded _ ▸ h.requiredLen).le

/-- Every step of the decoder takes some bytes. -/
theorem Decoding.need_pos (d : Decoding) : 0 < framing.need d := by
  obtain ⟨buffers, cached, cipher⟩ := d
  cases cached with
  | none => exact (by decide : 0 < 32)
  | some header => exact requiredLen_pos header

theorem Decoding.outcome_decodeBody {header header' body : Bytes} {cipher' : Option FrameCipher}
    (hread : outcome (readBody bytes header) d.frameCipher = (.ok (header', body), cipher'))
    {data : HeaderData} (hdata : headerData header' = .ok data)
    (hbuild : buildPacket data body d.chunkedBuffers = .ok (packet, buffers')) :
    outcome (decodeBody bytes header) d =
      (.ok packet, { d with chunkedBuffers := buffers', frameCipher := cipher' }) := by
  rw [decodeBody, outcome_bind, ciphering, outcome_onPart, hread]
  dsimp only
  rw [outcome_bind, outcome_ofExcept, hdata]
  dsimp only
  rw [outcome_bind, outcome_get]
  dsimp only
  rw [outcome_bind, outcome_ofExcept, hbuild]
  rfl

/-- The first step of a frame reads its header. -/
theorem Frame.Sendable.step_header (h : f.Sendable sid) (buffers : ChunkedBuffers)
    (cipher : Option FrameCipher) :
    Decoding.framing.step ((f.encoded cipher sid).1.take 32) ⟨buffers, none, cipher⟩ =
      (.ok [], ⟨buffers, some (f.headerBytes sid),
        (sealHeader cipher (f.headerBytes sid)).2⟩) := by
  have htake : (f.encoded cipher sid).1.take 32 = (sealHeader cipher (f.headerBytes sid)).1 :=
    List.take_left' (length_sealHeader cipher h.length_headerBytes)
  have hheader := outcome_decodeHeader cipher h.length_headerBytes []
  rw [List.append_nil] at hheader
  change outcome (Decoding.keepHeader _) _ = _
  rw [htake, Decoding.keepHeader, outcome_bind, Decoding.ciphering, outcome_onPart]
  dsimp only
  rw [hheader]
  rfl

/-- The second step reads its body. -/
theorem Frame.Sendable.step_body (h : f.Sendable sid) (cipher : Option FrameCipher)
    (hbuild : f.build buffers = .ok (packet, buffers')) :
    Decoding.framing.step (f.encoded cipher sid).1
        ⟨buffers, some (f.headerBytes sid), (sealHeader cipher (f.headerBytes sid)).2⟩ =
      (.ok [packet], ⟨buffers', none, (f.encoded cipher sid).2⟩) := by
  have hread := outcome_readBody cipher h.length_headerBytes
    (by rw [h.bodySizeOf, f.length_body] : f.body.length = _)
  have hbody : f.body.take f.bodySize = f.encCmdId ++ f.payload := by
    rw [Frame.body, Frame.bodySize, ← List.length_append, List.take_left]
  rw [h.bodySizeOf, hbody] at hread
  rw [Frame.build, h.sequenceId] at hbuild
  change outcome (Decoding.takeFrame _ _) _ = _
  rw [Decoding.takeFrame, outcome_bind]
  have hdecode := Decoding.outcome_decodeBody (d := ⟨buffers, some (f.headerBytes sid),
    (sealHeader cipher (f.headerBytes sid)).2⟩) hread h.headerData hbuild
  rw [Frame.encoded]
  dsimp only
  rw [hdecode]
  rfl

/-- Reading frames that were written, for an invariant of the frames to come, the buffers
and the packets so far that every frame keeps. -/
theorem drain_written {γ : Type} (frame : γ → Frame)
    (inv : List γ → ChunkedBuffers → List (Option Packet) → Prop)
    (hframe : ∀ {x xs buffers out}, inv (x :: xs) buffers out →
      ∃ packet buffers', (frame x).build buffers = .ok (packet, buffers') ∧
        inv xs buffers' (out ++ [packet]))
    {items : List (γ × Bytes)} {b later : Bytes}
    (hexpects : d.Expects (items.map fun item => (frame item.1, item.2)) cipher)
    (hinv : inv (items.map Prod.fst) d.chunkedBuffers [])
    (hb : b ++ later = items.flatMap Prod.snd) :
    ∃ (packets : List (Option Packet)) (b' : Bytes) (d' : Decoding) (items' : List (γ × Bytes)),
      Decoding.framing.drain b d = (.ok packets, b', d') ∧
      d'.Expects (items'.map fun item => (frame item.1, item.2)) cipher ∧
      inv (items'.map Prod.fst) d'.chunkedBuffers packets ∧
      b' ++ later = items'.flatMap Prod.snd ∧ b'.length < Decoding.framing.need d' := by
  obtain ⟨packets, b', d', items', hdrain, ⟨hexpects', hinv'⟩, hrest, hwaits⟩ :=
    Framing.drain_frames (F := Decoding.framing) (γ := γ × Bytes) Prod.snd
      (fun items d out => d.Expects (items.map fun item => (frame item.1, item.2)) cipher ∧
        inv (items.map Prod.fst) d.chunkedBuffers out)
      (fun {d _} _ => d.need_pos) (fun h => h.1.need_le)
      (by
        rintro ⟨x, bytes⟩ items d out ⟨hexpects, hinv⟩
        rw [List.map_cons] at hexpects
        generalize hframes : (frame x, bytes) ::
          items.map (fun item => (frame item.1, item.2)) = frames at hexpects
        cases hexpects with
        | @header buffers before _ _ hwritten =>
            cases hwritten with
            | nil => exact absurd hframes (List.cons_ne_nil _ _)
            | cons h hrest =>
                obtain ⟨hitem, rfl⟩ := List.cons.inj hframes
                obtain ⟨rfl, rfl⟩ := Prod.mk.inj hitem
                exact ⟨[], _, h.step_header buffers before,
                  Or.inl ⟨rfl, .body h hrest, (List.append_nil out).symm ▸ hinv⟩⟩
        | @body buffers before _ f sid _ h hrest =>
            obtain ⟨hitem, rfl⟩ := List.cons.inj hframes
            obtain ⟨rfl, rfl⟩ := Prod.mk.inj hitem
            obtain ⟨packet, buffers', hbuild, hinv'⟩ := hframe hinv
            have hlength : Decoding.requiredLen ((frame x).headerBytes sid) =
                ((frame x).encoded before sid).1.length := h.requiredLen.trans
              (h.length_encoded before).symm
            refine ⟨[packet], _, ?_, Or.inr ⟨hlength, .header hrest, hinv'⟩⟩
            change Decoding.framing.step (List.take (Decoding.requiredLen _) _) _ = _
            rw [hlength, List.take_length]
            exact h.step_body before hbuild)
      ⟨hexpects, hinv⟩ hb
  exact ⟨packets, b', d', items', hdrain, hexpects', hinv', hrest, hwaits⟩

end Reading

end Hgfrr.Multiplexing
