import Hgfrr.Foundation.Results
import Hgfrr.Model.Multiplexer

/-!
# The frames of a packet

A packet is one normal frame if it fits the window. Otherwise a chunked-0 frame
has the size of the whole, and the chunks after it have the rest, none of them
empty.
-/

namespace Hgfrr.Multiplexing

/-- Rounding up to a multiple of 16. -/
theorem ceil16_eq (x : ℕ) : ceil16 x = (x + 15) / 16 * 16 := by
  unfold ceil16
  split <;> omega

theorem le_ceil16 (x : ℕ) : x ≤ ceil16 x := by
  rw [ceil16_eq]
  omega

section Require

variable {α : Type} {p : Prop} [Decidable p]

omit [Decidable p] in
theorem error_ne_ok {e : Error} {a : α} : (.error e : Except Error α) ≠ .ok a := nofun

/-- An assertion before the rest of a computation. -/
theorem require_bind_eq_ok {k : Unit → Except Error α} {a : α} :
    (require p >>= k) = .ok a ↔ p ∧ k () = .ok a := by
  unfold require
  split
  next h => exact (and_iff_right h).symm
  next h => exact iff_of_false error_ne_ok fun heq => h heq.1

theorem require_bind (h : p) (k : Unit → Except Error α) : (require p >>= k) = k () := by
  rw [require, if_pos h]
  rfl

end Require

namespace Frame

variable [Rlp] {f g : Frame} {w : ℕ}

/-- A command id of one byte takes two at most. -/
theorem length_encCmdId_le (h : f.cmdId < 256) : f.encCmdId.length ≤ 2 := by
  unfold encCmdId
  split
  next => exact Nat.zero_le 2
  next => exact Rlp.length_encodeInt 1 f.cmdId (by norm_num) h

/-- A frame is 48 bytes and its body in multiples of 16. -/
theorem frameSize_eq (f : Frame) :
    f.frameSize = 48 + (f.encCmdId.length + f.payload.length + 15) / 16 * 16 := by
  rw [frameSize, bodySize, ceil16_eq, headerSize, macSize]
  omega

theorem frameSize_pos (f : Frame) : 0 < f.frameSize := by
  rw [frameSize_eq]
  omega

theorem encCmdId_chunk : (f.chunk w).encCmdId = f.encCmdId := rfl

theorem length_payload_chunk :
    (f.chunk w).payload.length = f.payload.length - (f.frameSize - w) := by
  rw [chunk, List.length_take]
  omega

/-- A chunk and what remains are the payload. -/
theorem payload_chunk_append : (f.chunk w).payload ++ (f.remain w).payload = f.payload := by
  rw [remain, length_payload_chunk]
  exact List.take_append_drop _ _

theorem length_payload_remain :
    (f.remain w).payload.length = f.payload.length - (f.chunk w).payload.length := by
  rw [remain, List.length_drop]

/-- The payload of a chunk is cut by as much as the frame is too large, so it fills
the window. -/
theorem frameSize_chunk_le (hcmd : f.cmdId < 256) (hmod : w % 16 = 0) (hw : 64 ≤ w)
    (hlt : w < f.frameSize) : (f.chunk w).frameSize ≤ w := by
  have hlen := length_encCmdId_le hcmd
  rw [frameSize_eq] at hlt
  rw [frameSize_eq, length_payload_chunk, encCmdId_chunk, frameSize_eq]
  omega

/-- A chunk fills the window, if the window is not very small. -/
theorem frameSize_chunk (hcmd : f.cmdId < 256) (hmod : w % 16 = 0) (hw : 80 ≤ w)
    (hlt : w < f.frameSize) : (f.chunk w).frameSize = w := by
  have hlen := length_encCmdId_le hcmd
  rw [frameSize_eq] at hlt
  rw [frameSize_eq, length_payload_chunk, encCmdId_chunk, frameSize_eq]
  omega

/-- A window for a frame without payload does not hold the command. -/
theorem le_of_frameSize_le (hchunk : f.isChunkedN = false) (hmod : w % 16 = 0)
    (h : f.frameSize ≤ w) : 64 ≤ w := by
  have hpos : 0 < f.encCmdId.length := by
    rw [encCmdId, hchunk]
    exact List.length_pos_iff.mpr (Rlp.encodeInt_ne_nil f.cmdId)
  rw [frameSize_eq] at h
  omega

/-- A chunk that is cut off leaves some of the payload, as the window has room for a
command id beside a multiple of 16. -/
theorem payload_remain_ne_nil (hcmd : f.cmdId < 256) (hw : 64 ≤ w) (hlt : w < f.frameSize) :
    (f.remain w).payload ≠ [] := by
  have hlen := length_encCmdId_le hcmd
  rw [← List.length_pos_iff, length_payload_remain, length_payload_chunk]
  rw [frameSize_eq] at hlt ⊢
  omega

/-- A chunk after the first has a part of the payload. -/
theorem payload_chunk_ne_nil (hchunk : f.isChunkedN = true) (hmod : w % 16 = 0) (hw : 64 ≤ w)
    (hpayload : f.payload ≠ []) : (f.chunk w).payload ≠ [] := by
  have henc : f.encCmdId.length = 0 := by rw [encCmdId, hchunk]; rfl
  rw [← List.length_pos_iff] at hpayload ⊢
  rw [length_payload_chunk, frameSize_eq, henc]
  omega

/-- What the constructor asserts of its arguments. -/
structure Admits (w : ℕ) (f : Frame) : Prop where
  window : w % 16 = 0
  cmdId : f.cmdId < 256
  protocolId : f.protocolId < 2 ^ 16
  sequenceId : ∀ sid ∈ f.sequenceId, sid < 2 ^ 16

theorem Admits.remain (h : Admits w f) : Admits w (f.remain w) :=
  ⟨h.window, h.cmdId, h.protocolId, h.sequenceId⟩

/-- One step of the recursion. -/
theorem framesWithin_eq_ok_iff {depth : ℕ} {frames : List Frame} :
    framesWithin w (depth + 1) f = .ok frames ↔ Admits w f ∧
      if w < f.frameSize then (f.chunk w).frameSize ≤ w ∧
        ∃ rest, framesWithin w depth (f.remain w) = .ok rest ∧ frames = f.chunk w :: rest
      else frames = [f] := by
  have hadmits : Admits w f ↔ w % padding = 0 ∧ f.cmdId < 256 ∧ f.protocolId < 2 ^ 16 ∧
      ∀ sid ∈ f.sequenceId, sid < 2 ^ 16 :=
    ⟨fun h => ⟨h.1, h.2, h.3, h.4⟩, fun h => ⟨h.1, h.2.1, h.2.2.1, h.2.2.2⟩⟩
  rw [framesWithin, require_bind_eq_ok, require_bind_eq_ok, require_bind_eq_ok,
    require_bind_eq_ok, hadmits]
  simp only [and_assoc]
  split
  next =>
    rw [require_bind_eq_ok, Except.bind_eq_ok]
    simp only [Pure.pure, Except.pure, Except.ok.injEq, @eq_comm _ frames]
  next => simp only [Pure.pure, Except.pure, Except.ok.injEq, @eq_comm _ frames]

/-- A chunk of the packet of a frame, not the first. -/
structure IsChunk (f g : Frame) : Prop where
  protocolId : g.protocolId = f.protocolId
  cmdId : g.cmdId = f.cmdId
  sequenceId : g.sequenceId = f.sequenceId
  isChunkedN : g.isChunkedN = true
  totalPayloadSize : g.totalPayloadSize = none
  payload : g.payload ≠ []

/-- The chunks of a payload, none of which exceeds the window. -/
theorem framesWithin_of_isChunkedN {depth : ℕ} {frames : List Frame} (hw : 64 ≤ w)
    (hchunk : f.isChunkedN = true) (htotal : f.totalPayloadSize = none) (hpayload : f.payload ≠ [])
    (h : framesWithin w depth f = .ok frames) :
    frames ≠ [] ∧ frames.flatMap payload = f.payload ∧
      ∀ g ∈ frames, IsChunk f g ∧ g.frameSize ≤ w := by
  induction depth generalizing f frames with
  | zero => exact absurd h error_ne_ok
  | succ depth ih =>
      obtain ⟨hadmits, h⟩ := framesWithin_eq_ok_iff.mp h
      split at h
      next hlt =>
        obtain ⟨hsize, rest, hrest, rfl⟩ := h
        obtain ⟨-, hflat, hall⟩ := ih (f := f.remain w) rfl rfl
          (payload_remain_ne_nil hadmits.cmdId hw hlt) hrest
        refine ⟨List.cons_ne_nil _ _, ?_, List.forall_mem_cons.mpr ⟨⟨?_, hsize⟩, ?_⟩⟩
        · rw [List.flatMap_cons, hflat, payload_chunk_append]
        · exact ⟨rfl, rfl, rfl, hchunk, by rw [chunk, if_pos hchunk],
            payload_chunk_ne_nil hchunk hadmits.window hw hpayload⟩
        · intro g hg
          obtain ⟨hg, hle⟩ := hall g hg
          exact ⟨⟨hg.protocolId, hg.cmdId, hg.sequenceId, hg.isChunkedN, hg.totalPayloadSize,
            hg.payload⟩, hle⟩
      next hle =>
        obtain rfl := h
        refine ⟨List.cons_ne_nil _ _, List.flatMap_singleton _ _, ?_⟩
        rw [List.forall_mem_singleton]
        exact ⟨⟨rfl, rfl, rfl, hchunk, htotal, hpayload⟩, not_lt.mp hle⟩

/-- A payload is cut up before the bound on the recursion is reached. -/
theorem exists_framesWithin {depth : ℕ} (hadmits : Admits w f) (hw : 64 ≤ w)
    (hchunk : f.isChunkedN = true) (hdepth : f.payload.length < depth) :
    ∃ frames, framesWithin w depth f = .ok frames := by
  induction depth generalizing f with
  | zero => exact absurd hdepth (Nat.not_lt_zero _)
  | succ depth ih =>
      by_cases hlt : w < f.frameSize
      · have hpayload : f.payload ≠ [] := by
          intro hnil
          have hremain := payload_remain_ne_nil hadmits.cmdId hw hlt
          rw [remain, hnil, List.drop_nil] at hremain
          exact hremain rfl
        have hpos := List.length_pos_iff.mpr
          (payload_chunk_ne_nil hchunk hadmits.window hw hpayload)
        have hlen := congrArg List.length (payload_chunk_append (f := f) (w := w))
        rw [List.length_append] at hlen
        obtain ⟨rest, hrest⟩ := ih hadmits.remain rfl (by omega)
        refine ⟨f.chunk w :: rest, framesWithin_eq_ok_iff.mpr ⟨hadmits, ?_⟩⟩
        rw [if_pos hlt]
        exact ⟨frameSize_chunk_le hadmits.cmdId hadmits.window hw hlt, rest, hrest, rfl⟩
      · exact ⟨[f], framesWithin_eq_ok_iff.mpr ⟨hadmits, by rw [if_neg hlt]⟩⟩

/-- The constructor is only called for a first frame. -/
theorem exists_frames_iff (hchunk : f.isChunkedN = false) :
    (∃ frames, f.frames w = .ok frames) ↔ Admits w f ∧ 64 ≤ w := by
  constructor
  · rintro ⟨frames, h⟩
    obtain ⟨hadmits, h⟩ := framesWithin_eq_ok_iff.mp h
    refine ⟨hadmits, ?_⟩
    split at h
    next => exact le_of_frameSize_le (f := f.chunk w) hchunk hadmits.window h.1
    next hle => exact le_of_frameSize_le hchunk hadmits.window (not_lt.mp hle)
  · rintro ⟨hadmits, hw⟩
    by_cases hlt : w < f.frameSize
    · obtain ⟨rest, hrest⟩ := exists_framesWithin (f := f.remain w) hadmits.remain hw rfl
        (Nat.lt_succ_of_le ((length_payload_remain (w := w)).trans_le (Nat.sub_le _ _)))
      refine ⟨f.chunk w :: rest, framesWithin_eq_ok_iff.mpr ⟨hadmits, ?_⟩⟩
      rw [if_pos hlt]
      exact ⟨frameSize_chunk_le hadmits.cmdId hadmits.window hw hlt, rest, hrest, rfl⟩
    · exact ⟨[f], framesWithin_eq_ok_iff.mpr ⟨hadmits, by rw [if_neg hlt]⟩⟩

end Frame

open Sending

variable [Rlp] {packet : Packet} {sid w : ℕ} {frames : List Frame}

/-- The frames that carry a packet. -/
inductive Carries (packet : Packet) (sid : ℕ) : List Frame → Prop
  | normal : Carries packet sid [packetFrame packet sid]
  | chunked {payload : Bytes} {rest : List Frame} (hne : rest ≠ [])
      (hpayload : payload ++ rest.flatMap Frame.payload = packet.payload)
      (hrest : ∀ g ∈ rest, (packetFrame packet sid).IsChunk g) :
      Carries packet sid
        ({ packetFrame packet sid with
            payload := payload
            totalPayloadSize := some (packetFrame packet sid).bodySize } :: rest)

theorem Carries.ne_nil (h : Carries packet sid frames) : frames ≠ [] := by
  cases h with
  | normal => exact List.cons_ne_nil _ _
  | chunked => exact List.cons_ne_nil _ _

/-- The frames of a packet carry its payload. -/
theorem Carries.flatMap_payload (h : Carries packet sid frames) :
    frames.flatMap Frame.payload = packet.payload := by
  cases h with
  | normal => exact List.flatMap_singleton _ _
  | chunked _ hpayload => rwa [List.flatMap_cons]

theorem Carries.ids {g : Frame} (h : Carries packet sid frames) (hg : g ∈ frames) :
    g.protocolId = packet.protocolId ∧ g.cmdId = packet.cmdId ∧ g.sequenceId = some sid := by
  cases h with
  | normal =>
      obtain rfl := List.mem_singleton.mp hg
      exact ⟨rfl, rfl, rfl⟩
  | chunked _ _ hrest =>
      rcases List.mem_cons.mp hg with rfl | hg
      · exact ⟨rfl, rfl, rfl⟩
      · exact ⟨(hrest g hg).protocolId, (hrest g hg).cmdId, (hrest g hg).sequenceId⟩

/-- What is cut up carries the packet, in frames that fit the window, and in one frame if
the packet fits. -/
theorem frames_packetFrame (h : (packetFrame packet sid).frames w = .ok frames) :
    Carries packet sid frames ∧ (∀ g ∈ frames, g.frameSize ≤ w) ∧
      (frames.length = 1 ↔ (packetFrame packet sid).frameSize ≤ w) := by
  obtain ⟨-, hw⟩ := (Frame.exists_frames_iff rfl).mp ⟨frames, h⟩
  obtain ⟨hadmits, h⟩ := Frame.framesWithin_eq_ok_iff.mp h
  split at h
  next hlt =>
    obtain ⟨hsize, rest, hrest, rfl⟩ := h
    have hremain := Frame.payload_remain_ne_nil hadmits.cmdId hw hlt
    obtain ⟨hne, hflat, hall⟩ := Frame.framesWithin_of_isChunkedN hw rfl rfl hremain hrest
    refine ⟨.chunked hne ?_ ?_, List.forall_mem_cons.mpr ⟨hsize, fun g hg => (hall g hg).2⟩, ?_⟩
    · rw [hflat]
      exact Frame.payload_chunk_append
    · intro g hg
      obtain ⟨hg, -⟩ := hall g hg
      exact ⟨hg.protocolId, hg.cmdId, hg.sequenceId, hg.isChunkedN, hg.totalPayloadSize,
        hg.payload⟩
    · apply iff_of_false _ (not_le.mpr hlt)
      rw [List.length_cons, Nat.add_eq_right, List.length_eq_zero_iff]
      exact hne
  next hle =>
    obtain rfl := h
    exact ⟨.normal, List.forall_mem_singleton.mpr (not_lt.mp hle),
      iff_of_true rfl (not_lt.mp hle)⟩

/-- The first frame is as large as the window allows. -/
theorem min_le_frameSize_head {f : Frame} (h : (packetFrame packet sid).frames w = .ok frames)
    (hw : 80 ≤ w) (hf : f ∈ frames.head?) :
    min w (packetFrame packet sid).frameSize ≤ f.frameSize := by
  obtain ⟨hadmits, h⟩ := Frame.framesWithin_eq_ok_iff.mp h
  split at h
  next hlt =>
    obtain ⟨-, rest, -, rfl⟩ := h
    obtain rfl := Option.some.inj hf
    rw [Frame.frameSize_chunk hadmits.cmdId hadmits.window hw hlt]
    exact min_le_left _ _
  next =>
    obtain rfl := h
    obtain rfl := Option.some.inj hf
    exact min_le_right _ _

end Hgfrr.Multiplexing
