import Hgfrr.Foundation.Framing
import Hgfrr.Multiplexer.Chunks
import Hgfrr.Multiplexer.ShortRlp

/-!
# Decoding the stream

Decoding reads a framed stream: it waits for a header, which it keeps, and then for the
frame. So however the bytes of the stream are cut into pieces, the same packets come out.
-/

namespace Hgfrr.Multiplexing

open Effects

namespace Decoding

theorem requiredLen_eq (header : Bytes) :
    requiredLen header = 32 + (ceil16 (bodySizeOf header) + 16) := by
  rw [requiredLen, Frame.headerSize, Frame.macSize]
  omega

theorem requiredLen_pos (header : Bytes) : 0 < requiredLen header := by
  rw [requiredLen_eq]
  omega

section Taking

variable [Aes] [Sha3] {buffer header data : Bytes} {n : ℕ}

theorem decryptBody_take (h : ceil16 n + 16 ≤ data.length) :
    FrameCipher.decryptBody (data.take (ceil16 n + 16)) n = FrameCipher.decryptBody data n := by
  have hlength : (data.take (ceil16 n + 16)).length = ceil16 n + 16 := by
    rw [List.length_take, min_eq_left h]
  rw [FrameCipher.decryptBody, FrameCipher.decryptBody]
  dsimp only
  rw [hlength, if_neg (lt_irrefl _), if_neg (not_lt.mpr h), List.take_take,
    min_eq_left (Nat.le_add_right _ 16), List.drop_take, Nat.add_sub_cancel_left, List.take_take,
    min_self]

theorem decodeHeader_take (h : 32 ≤ buffer.length) :
    decodeHeader (buffer.take 32) = decodeHeader buffer := by
  have hlength : (buffer.take 32).length = 32 := by
    rw [List.length_take, min_eq_left h]
  rw [decodeHeader, decodeHeader, Frame.headerSize, Frame.macSize, hlength, List.take_take,
    List.take_take]
  simp only [require, if_pos h, if_pos (le_refl 32), Nat.reduceAdd, min_self,
    show min 16 32 = 16 from rfl]

/-- A frame is decoded from its own bytes. -/
theorem readBody_take (h : requiredLen header ≤ buffer.length) :
    readBody (buffer.take (requiredLen header)) header = readBody buffer header := by
  have hceil := le_ceil16 (bodySizeOf header)
  rw [requiredLen_eq] at h ⊢
  have hdrop : (buffer.take (32 + (ceil16 (bodySizeOf header) + 16))).drop 32 =
      (buffer.drop 32).take (ceil16 (bodySizeOf header) + 16) := by
    rw [List.drop_take, Nat.add_sub_cancel_left]
  have hcipher : ceil16 (bodySizeOf header) + 16 ≤ (buffer.drop 32).length := by
    rw [List.length_drop]
    omega
  rw [readBody, readBody, Frame.headerSize, Frame.macSize]
  simp only [Nat.reduceAdd, hdrop, decryptBody_take hcipher, List.take_take]
  rw [min_eq_left (by omega), min_eq_left (by omega)]

theorem decodeBody_take [Rlp] (h : requiredLen header ≤ buffer.length) :
    decodeBody (buffer.take (requiredLen header)) header = decodeBody buffer header := by
  rw [decodeBody, decodeBody, readBody_take h]

end Taking

variable [Rlp] [Aes] [Sha3]

omit [Rlp] in
/-- A header that is there is kept. -/
def keepHeader (b : Bytes) : Effect Error Decoding (List (Option Packet)) := do
  let header ← ciphering (decodeHeader b)
  modify fun d => { d with cachedDecodeHeader := some header }
  return []

/-- With the frame the header is no longer kept. -/
def takeFrame (b header : Bytes) : Effect Error Decoding (List (Option Packet)) := do
  let packet ← decodeBody b header
  modify fun d => { d with cachedDecodeHeader := none }
  return [packet]

/-- The stream as headers and frames. -/
def framing : Framing UInt8 Error Decoding (Option Packet) where
  need d := d.cachedDecodeHeader.elim 32 requiredLen
  used d := d.cachedDecodeHeader.elim 0 requiredLen
  used_le d := by
    cases d.cachedDecodeHeader with
    | none => exact Nat.zero_le 32
    | some header => exact le_rfl
  step b d := d.cachedDecodeHeader.elim (outcome (keepHeader b) d)
    fun header => outcome (takeFrame b header) d
  used_pos := by
    intro b d d' xs hstep hzero
    cases hcached : d.cachedDecodeHeader with
    | some header =>
        rw [hcached] at hzero
        exact absurd hzero (requiredLen_pos header).ne'
    | none =>
        rw [hcached, Option.elim_none, keepHeader, outcome_bind] at hstep
        rcases hout : outcome (ciphering (decodeHeader b)) d with ⟨e | header, t⟩
        · rw [hout] at hstep
          exact absurd (congrArg Prod.fst hstep) error_ne_ok
        · rw [hout] at hstep
          obtain ⟨-, rfl⟩ := Prod.mk.inj hstep
          exact requiredLen_pos header

/-- The packets with a payload. -/
def delivered (packets : List (Option Packet)) : List Packet :=
  packets.flatMap fun packet => packet.toList.filter (·.payload ≠ [])

omit [Rlp] [Aes] [Sha3] in
theorem delivered_append (packets more : List (Option Packet)) :
    delivered (packets ++ more) = delivered packets ++ delivered more :=
  List.flatMap_append

end Decoding

namespace Receiving

open Decoding

variable [Rlp] [Aes] [Sha3] {r r' : Receiving} {n : ℕ} {e : Error}

/-- The outcome of decoding from where a drain ends. -/
def ofDrain (x : Except Error (List (Option Packet)) × Bytes × Decoding) :
    Except Error (List Packet) × Receiving :=
  (x.1.map delivered, ⟨x.2.2, x.2.1⟩)

omit [Rlp] [Aes] [Sha3] in
theorem ofDrain_append (packets : List (Option Packet))
    (x : Except Error (List (Option Packet)) × Bytes × Decoding) :
    ofDrain (x.1.map (packets ++ ·), x.2) =
      ((ofDrain x).1.map (delivered packets ++ ·), (ofDrain x).2) := by
  obtain ⟨e | more, b, d⟩ := x
  · rfl
  · dsimp only [ofDrain, Except.map]
    rw [delivered_append]

/-- Either the header is kept before the frame is looked at, or decoding ends here. -/
theorem outcome_cachedHeader (d : Decoding) (buffer : Bytes) :
    (∃ d' header, outcome cachedHeader ⟨d, buffer⟩ = (.ok (some header), ⟨d', buffer⟩) ∧
      d'.cachedDecodeHeader = some header ∧ framing.drain buffer d = framing.drain buffer d') ∨
    (outcome cachedHeader ⟨d, buffer⟩ = (.ok none, ⟨d, buffer⟩) ∧
      framing.drain buffer d = (.ok [], buffer, d)) ∨
    ∃ e d', outcome cachedHeader ⟨d, buffer⟩ = (.error e, ⟨d', buffer⟩) ∧
      framing.drain buffer d = (.error e, buffer, d') := by
  obtain ⟨buffers, cached, cipher⟩ := d
  cases cached with
  | some header => exact Or.inl ⟨_, header, rfl, rfl, rfl⟩
  | none =>
      rw [cachedHeader, outcome_bind, outcome_get]
      dsimp only
      by_cases hlt : buffer.length < 32
      · rw [if_pos (by exact hlt)]
        exact Or.inr (Or.inl ⟨rfl, Framing.drain_of_lt (F := framing) hlt⟩)
      have h : 32 ≤ buffer.length := not_lt.mp hlt
      have hstep : framing.step (buffer.take 32) ⟨buffers, none, cipher⟩ =
          outcome (keepHeader buffer) ⟨buffers, none, cipher⟩ := by
        change outcome (keepHeader (buffer.take 32)) _ = _
        rw [keepHeader, keepHeader, decodeHeader_take h]
      rw [keepHeader, outcome_bind, ciphering, outcome_onPart] at hstep
      rw [if_neg (by exact hlt), outcome_bind, decoding, outcome_onPart, ciphering, outcome_onPart]
      dsimp only at hstep ⊢
      rcases hout : outcome (decodeHeader buffer) cipher with ⟨e | header, c⟩ <;> rw [hout] at hstep
      · exact Or.inr (Or.inr ⟨e, _, rfl, Framing.drain_error (F := framing) h hstep⟩)
      · refine Or.inl ⟨⟨buffers, some header, c⟩, header, rfl, rfl, ?_⟩
        rw [Framing.drain_ok (F := framing) (s := ⟨buffers, none, cipher⟩) h hstep]
        change ((framing.drain buffer ⟨buffers, some header, c⟩).1.map ([] ++ ·),
          (framing.drain buffer ⟨buffers, some header, c⟩).2) = _
        rcases framing.drain buffer ⟨buffers, some header, c⟩ with ⟨e | packets, b, t⟩ <;> rfl

/-- The step of a frame whose header is kept. -/
theorem step_frame (d : Decoding) {buffer header : Bytes}
    (hheader : d.cachedDecodeHeader = some header) :
    framing.need d = requiredLen header ∧ framing.used d = requiredLen header ∧
      (requiredLen header ≤ buffer.length →
        framing.step (buffer.take (requiredLen header)) d =
          outcome (takeFrame buffer header) d) := by
  obtain ⟨buffers, cached, cipher⟩ := d
  obtain rfl : cached = some header := hheader
  refine ⟨rfl, rfl, fun hle => ?_⟩
  change outcome (takeFrame _ header) _ = _
  rw [takeFrame, takeFrame, decodeBody_take hle]

/-- Decoding drains the buffer. -/
theorem outcome_decodeWithin (hn : r.decodeBuffer.length < n) :
    outcome (decodeWithin n) r = ofDrain (framing.drain r.decodeBuffer r.toDecoding) := by
  induction n generalizing r with
  | zero => exact absurd hn (Nat.not_lt_zero _)
  | succ n ih =>
      obtain ⟨d, buffer⟩ := r
      dsimp only at hn ⊢
      rw [decodeWithin, outcome_bind]
      obtain ⟨d', header, hout, hheader, hdrain⟩ | ⟨hout, hdrain⟩ | ⟨e, d', hout, hdrain⟩ :=
        outcome_cachedHeader d buffer
      · rw [hout, hdrain]
        dsimp only
        rw [outcome_bind, outcome_get]
        dsimp only
        obtain ⟨hneed, hused, hstep⟩ := step_frame d' hheader
        by_cases hle : requiredLen header ≤ buffer.length
        · have hstep := hstep hle
          rw [takeFrame, outcome_bind, ← hneed] at hstep
          rw [if_pos hle, outcome_bind, decoding, outcome_onPart]
          rw [← hneed] at hle
          dsimp only
          rcases hbody : outcome (decodeBody buffer header) d' with ⟨e | packet, t⟩ <;>
            rw [hbody] at hstep
          · rw [Framing.drain_error hle hstep]
            rfl
          · have hlt : (buffer.drop (requiredLen header)).length < n := by
              have hpos := requiredLen_pos header
              rw [List.length_drop]
              omega
            rw [Framing.drain_ok hle hstep, ofDrain_append, hused]
            dsimp only
            rw [outcome_bind, outcome_modify]
            dsimp only
            rw [outcome_bind, ih hlt]
            dsimp only
            rcases ofDrain _ with ⟨e | packets, u⟩
            · rfl
            · dsimp only [Except.map]
              rw [outcome_pure, delivered, List.flatMap_singleton]
        · rw [if_neg hle, Framing.drain_of_lt (hneed ▸ not_le.mp hle)]
          rfl
      · rw [hout, hdrain]
        rfl
      · rw [hout, hdrain]
        rfl

theorem outcome_decode (r : Receiving) (data : Bytes) :
    outcome (decode data) r =
      ofDrain (framing.drain (r.decodeBuffer ++ data) r.toDecoding) := by
  rw [decode, outcome_bind, outcome_modify]
  dsimp only
  rw [outcome_bind, outcome_get]
  exact outcome_decodeWithin (Nat.lt_succ_self _)

/-- A piece of the stream decoded in two. -/
theorem decode_append (r : Receiving) (data more : Bytes) :
    outcome (decode (data ++ more)) r =
      match outcome (decode data) r with
      | (.ok packets, r') =>
          ((outcome (decode more) r').1.map (packets ++ ·), (outcome (decode more) r').2)
      | (.error e, r') => (.error e, { r' with decodeBuffer := r'.decodeBuffer ++ more }) := by
  rw [outcome_decode, outcome_decode, ← List.append_assoc, Framing.drain_append]
  rcases framing.drain (r.decodeBuffer ++ data) r.toDecoding with ⟨e | packets, b, d⟩
  · rfl
  · dsimp only [Framing.goOn]
    rw [ofDrain_append]
    change _ = ((outcome (decode more) ⟨d, b⟩).1.map (delivered packets ++ ·),
      (outcome (decode more) ⟨d, b⟩).2)
    rw [outcome_decode]

/-! ## Any pieces -/

/-- The packets of the pieces of a stream, until there is a failure. -/
def decodeAll : List Bytes → Action (List Packet)
  | [] => return []
  | data :: pieces => do
      let packets ← decode data
      let more ← decodeAll pieces
      return packets ++ more

/-- The state after pieces were decoded, also when there were failures. -/
def receive (r : Receiving) (pieces : List Bytes) : Receiving :=
  pieces.foldl (fun r data => (outcome (decode data) r).2) r

theorem outcome_decodeAll_cons (data : Bytes) (pieces : List Bytes) :
    outcome (decodeAll (data :: pieces)) r =
      match outcome (decode data) r with
      | (.ok packets, r') =>
          ((outcome (decodeAll pieces) r').1.map (packets ++ ·), (outcome (decodeAll pieces) r').2)
      | (.error e, r') => (.error e, r') := by
  rw [decodeAll, outcome_bind]
  rcases outcome (decode data) r with ⟨e | packets, r'⟩
  · rfl
  · dsimp only
    rw [outcome_bind]
    rcases outcome (decodeAll pieces) r' with ⟨e | more, r''⟩ <;> rfl

/-- However a stream is cut into pieces, the packets of the pieces, and the state after
them, are those of the whole stream in one piece. If a piece fails, so does the whole,
with the same error, and leaves the same state but for the bytes that come later. -/
theorem decode_pieces (r : Receiving) (data : Bytes) (pieces : List Bytes) :
    match outcome (decodeAll (data :: pieces)) r with
    | (.ok packets, r') => outcome (decode (data :: pieces).flatten) r = (.ok packets, r')
    | (.error e, r') => ∃ rest, outcome (decode (data :: pieces).flatten) r =
        (.error e, { r' with decodeBuffer := r'.decodeBuffer ++ rest }) := by
  induction pieces generalizing r data with
  | nil =>
      rw [outcome_decodeAll_cons, List.flatten_singleton]
      rcases outcome (decode data) r with ⟨e | packets, r'⟩
      · exact ⟨[], by rw [List.append_nil]⟩
      · change _ = (Except.ok (packets ++ []), r')
        rw [List.append_nil]
  | cons next pieces ih =>
      rw [outcome_decodeAll_cons, List.flatten_cons, decode_append]
      rcases outcome (decode data) r with ⟨e | packets, r'⟩
      · exact ⟨_, rfl⟩
      · have hnext := ih r' next
        revert hnext
        dsimp only
        rcases outcome (decodeAll (next :: pieces)) r' with ⟨e | more, r''⟩ <;> intro hnext
        · obtain ⟨rest, hrest⟩ := hnext
          exact ⟨rest, by rw [hrest]; rfl⟩
        · dsimp only at hnext
          rw [hnext]
          rfl

end Receiving

/-! ## Failures without a cipher -/

namespace Decoding

variable [Rlp] [Aes] [Sha3] {d d' : Decoding} {buffer header : Bytes} {e : Error}

omit [Rlp] in
theorem exists_outcome_readBody (buffer header : Bytes) :
    ∃ result, outcome (readBody buffer header) none = (result, none) := by
  rw [readBody, outcome_bind, outcome_get]
  dsimp only
  rw [outcome_bind, outcome_ofExcept]
  rcases require _ with e | u <;> exact ⟨_, rfl⟩

/-- A frame that fails leaves the state as it is. -/
theorem outcome_decodeBody_none (hcipher : d.frameCipher = none) (buffer header : Bytes) :
    (∃ e, outcome (decodeBody buffer header) d = (.error e, d)) ∨
      ∃ packet buffers, outcome (decodeBody buffer header) d =
        (.ok packet, { d with chunkedBuffers := buffers }) := by
  obtain ⟨result, hread⟩ := exists_outcome_readBody buffer header
  have hsame : outcome (ciphering (readBody buffer header)) d = (result, d) := by
    rw [ciphering, outcome_onPart, hcipher, hread, ← hcipher]
  rw [decodeBody, outcome_bind, hsame]
  rcases result with e | ⟨header', body⟩
  · exact Or.inl ⟨e, rfl⟩
  dsimp only
  rw [outcome_bind, outcome_ofExcept]
  rcases headerData header' with e | data
  · exact Or.inl ⟨e, rfl⟩
  dsimp only
  rw [outcome_bind, outcome_get]
  dsimp only
  rw [outcome_bind, outcome_ofExcept]
  rcases buildPacket data body d.chunkedBuffers with e | ⟨packet, buffers⟩
  · exact Or.inl ⟨e, rfl⟩
  · exact Or.inr ⟨packet, buffers, rfl⟩

/-- A step that fails leaves the header and the state as they are. -/
theorem step_none (hcipher : d.frameCipher = none) (hneed : framing.need d ≤ buffer.length) :
    (∃ packets d', framing.step (buffer.take (framing.need d)) d = (.ok packets, d') ∧
      d'.frameCipher = none) ∨
    ∃ header e, d.cachedDecodeHeader = some header ∧
      framing.step (buffer.take (framing.need d)) d = (.error e, d) ∧
      outcome (decodeBody buffer header) d = (.error e, d) := by
  obtain ⟨buffers, cached, cipher⟩ := d
  obtain rfl : cipher = none := hcipher
  cases cached with
  | none =>
      have hlength : Frame.headerSize + Frame.macSize ≤ buffer.length := hneed
      refine Or.inl ⟨[], ⟨buffers, some (buffer.take Frame.headerSize), none⟩, ?_, rfl⟩
      change outcome (keepHeader (buffer.take 32)) _ = _
      rw [keepHeader, decodeHeader_take hneed, outcome_bind, ciphering, outcome_onPart,
        decodeHeader, outcome_bind, outcome_ofExcept, require, if_pos hlength]
      rfl
  | some header =>
      have hstep : framing.step (buffer.take (requiredLen header)) ⟨buffers, some header, none⟩ =
          outcome (takeFrame buffer header) ⟨buffers, some header, none⟩ := by
        change outcome (takeFrame (buffer.take (requiredLen header)) header) _ = _
        rw [takeFrame, takeFrame, decodeBody_take hneed]
      rw [takeFrame, outcome_bind] at hstep
      obtain ⟨e, hbody⟩ | ⟨packet, buffers', hbody⟩ :=
        outcome_decodeBody_none (d := ⟨buffers, some header, none⟩) rfl buffer header
      · rw [hbody] at hstep
        exact Or.inr ⟨header, e, rfl, hstep, hbody⟩
      · rw [hbody] at hstep
        exact Or.inl ⟨[packet], ⟨buffers', none, none⟩, hstep, rfl⟩

end Decoding

namespace Receiving

open Decoding

variable [Rlp] [Aes] [Sha3] {r r' : Receiving} {data : Bytes} {e : Error}

/-- A frame at the front of the buffer that fails. -/
def Stuck (r : Receiving) (e : Error) : Prop :=
  ∃ header, r.cachedDecodeHeader = some header ∧ requiredLen header ≤ r.decodeBuffer.length ∧
    outcome (decodeBody r.decodeBuffer header) r.toDecoding = (.error e, r.toDecoding)

/-- Without a frame cipher a failure is that of a frame, which stays at the front of the
buffer. -/
theorem stuck_of_decode (hcipher : r.frameCipher = none)
    (hfail : outcome (decode data) r = (.error e, r')) : r'.Stuck e := by
  rw [outcome_decode] at hfail
  have hkeeps : ∀ {b : Bytes} {d : Decoding}, d.frameCipher = none → framing.need d ≤ b.length →
      (framing.step (b.take (framing.need d)) d).2.frameCipher = none := by
    intro b d hd hneed
    obtain ⟨packets, d', hstep, hd'⟩ | ⟨header, e, -, hstep, -⟩ := step_none hd hneed <;> rw [hstep]
    · exact hd'
    · exact hd
  have hend := @Framing.drain_end _ _ _ _ framing (r.decodeBuffer ++ data) _
    (fun d => d.frameCipher = none) hcipher hkeeps
  rcases hdrain : framing.drain (r.decodeBuffer ++ data) r.toDecoding with
    ⟨e' | packets, b, d⟩ <;> rw [hdrain] at hfail hend
  · obtain ⟨he, rfl⟩ := Prod.mk.inj hfail
    obtain ⟨d₀, hd₀, hneed, hstep⟩ := hend
    obtain ⟨packets, d', hok, -⟩ | ⟨header, e'', hcached, herror, hbody⟩ := step_none hd₀ hneed
    · exact absurd (congrArg Prod.fst (hstep.symm.trans hok)) error_ne_ok
    · obtain ⟨he', rfl⟩ := Prod.mk.inj (hstep.symm.trans herror)
      obtain rfl := Except.error.inj he'
      obtain rfl : e' = e := Except.error.inj he
      refine ⟨header, hcached, ?_, hbody⟩
      change d.cachedDecodeHeader.elim 32 requiredLen ≤ b.length at hneed
      rwa [hcached] at hneed
  · exact absurd (congrArg Prod.fst hfail).symm error_ne_ok

/-- Bytes that come later only go to the buffer. -/
theorem Stuck.decode (h : r.Stuck e) (data : Bytes) :
    outcome (decode data) r = (.error e, { r with decodeBuffer := r.decodeBuffer ++ data }) := by
  obtain ⟨header, hcached, hlength, hbody⟩ := h
  obtain ⟨⟨buffers, cached, cipher⟩, buffer⟩ := r
  obtain rfl : cached = some header := hcached
  have hneed : framing.need ⟨buffers, some header, cipher⟩ ≤ (buffer ++ data).length := by
    rw [List.length_append]
    exact Nat.le_add_right_of_le hlength
  have hstep : framing.step ((buffer ++ data).take (framing.need ⟨buffers, some header, cipher⟩))
      ⟨buffers, some header, cipher⟩ = (.error e, ⟨buffers, some header, cipher⟩) := by
    change outcome (takeFrame ((buffer ++ data).take (requiredLen header)) header) _ = _
    rw [List.take_append_of_le_length hlength, takeFrame, decodeBody_take hlength, outcome_bind,
      hbody]
  rw [outcome_decode, Framing.drain_error hneed hstep]
  rfl

theorem Stuck.append (h : r.Stuck e) (data : Bytes) :
    Stuck { r with decodeBuffer := r.decodeBuffer ++ data } e := by
  obtain ⟨header, hcached, hlength, hbody⟩ := h
  have hle : requiredLen header ≤ (r.decodeBuffer ++ data).length := by
    rw [List.length_append]
    exact Nat.le_add_right_of_le hlength
  refine ⟨header, hcached, hle, ?_⟩
  change outcome (decodeBody (r.decodeBuffer ++ data) header) r.toDecoding = _
  rw [← decodeBody_take hle, List.take_append_of_le_length hlength, decodeBody_take hlength, hbody]

theorem Stuck.receive (h : r.Stuck e) (later : List Bytes) :
    r.receive later = { r with decodeBuffer := r.decodeBuffer ++ later.flatten } := by
  induction later generalizing r with
  | nil => rw [List.flatten_nil, List.append_nil]; rfl
  | cons data later ih =>
      have hreceive : r.receive (data :: later) =
          Receiving.receive { r with decodeBuffer := r.decodeBuffer ++ data } later := by
        rw [Receiving.receive, List.foldl_cons, h.decode]
        rfl
      rw [hreceive, ih (h.append data), List.flatten_cons, ← List.append_assoc]

/-- After a failure without a frame cipher the frame that failed stays at the front of the
buffer, and whatever comes later fails in the same way and changes nothing else. -/
theorem decode_fails_again (hcipher : r.frameCipher = none)
    (hfail : outcome (decode data) r = (.error e, r')) (later : List Bytes) (more : Bytes) :
    r'.Stuck e ∧ outcome (decode more) (r'.receive later) =
      (.error e, { r' with decodeBuffer := r'.decodeBuffer ++ later.flatten ++ more }) := by
  have hstuck := stuck_of_decode hcipher hfail
  refine ⟨hstuck, ?_⟩
  rw [hstuck.receive, (hstuck.append later.flatten).decode]

end Receiving

namespace Receiving

section Witness

attribute [local instance] shortRlp rijndaelAes keccakSha3

/-- The protocols 1 and 2 are known. -/
def twoProtocols : Receiving := ⟨⟨[(1, []), (2, [])], none, none⟩, []⟩

/-- A frame of one byte for a protocol, without a frame cipher. -/
def byteFrame (protocolId byte : UInt8) : Bytes :=
  [0, 0, 2, 0xc2, protocolId, 0x80] ++ List.replicate 26 0 ++ [0x80, byte] ++ List.replicate 30 0

/-- Two frames that are cut in the header of the first and the body of the second. -/
theorem decode_pieces_two :
    outcome (decodeAll [(byteFrame 1 5).take 20, (byteFrame 1 5).drop 20 ++ (byteFrame 2 6).take 40,
        (byteFrame 2 6).drop 40]) twoProtocols =
      (.ok [⟨1, 0, [5], false⟩, ⟨2, 0, [6], false⟩], twoProtocols) ∧
    outcome (decode (byteFrame 1 5 ++ byteFrame 2 6)) twoProtocols =
      (.ok [⟨1, 0, [5], false⟩, ⟨2, 0, [6], false⟩], twoProtocols) := by
  have hall : outcome (decodeAll [(byteFrame 1 5).take 20,
      (byteFrame 1 5).drop 20 ++ (byteFrame 2 6).take 40, (byteFrame 2 6).drop 40]) twoProtocols =
      (.ok [⟨1, 0, [5], false⟩, ⟨2, 0, [6], false⟩], twoProtocols) := by
    decide +kernel
  have hwhole := decode_pieces twoProtocols ((byteFrame 1 5).take 20)
    [(byteFrame 1 5).drop 20 ++ (byteFrame 2 6).take 40, (byteFrame 2 6).drop 40]
  rw [hall] at hwhole
  exact ⟨hall, hwhole⟩

/-- A frame for a protocol that is not known, and what comes after it. -/
theorem decode_fails_again_unknown :
    ∃ r' : Receiving, r'.Stuck (.multiplexer "unknown protocol_id 9") ∧
      outcome (decode (byteFrame 9 5)) twoProtocols =
        (.error (.multiplexer "unknown protocol_id 9"), r') ∧
      outcome (decode [8]) (r'.receive [byteFrame 1 5, [7]]) =
        (.error (.multiplexer "unknown protocol_id 9"),
          { r' with decodeBuffer := r'.decodeBuffer ++ [byteFrame 1 5, [7]].flatten ++ [8] }) := by
  have hfail : outcome (decode (byteFrame 9 5)) twoProtocols =
      (.error (.multiplexer "unknown protocol_id 9"),
        ⟨⟨[(1, []), (2, [])], some ((byteFrame 9 5).take 16), none⟩, byteFrame 9 5⟩) := by
    decide +kernel
  obtain ⟨hstuck, hagain⟩ := decode_fails_again rfl hfail [byteFrame 1 5, [7]] [8]
  exact ⟨_, hstuck, hfail, hagain⟩

end Witness

end Receiving

end Hgfrr.Multiplexing
