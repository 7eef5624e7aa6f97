import Hgfrr.Foundation.AssocMap
import Hgfrr.Model.FrameCipher

/-!
# The multiplexer

The packets of several protocols go over one stream of bytes. A packet is cut into
frames that fit the window of its protocol, the frames wait in the queues of the
protocol, the protocols take turns, and the receiver puts the packets together
again.

The fields of `Multiplexer` that sending and decoding use are apart.
-/

namespace Hgfrr.Multiplexing

open Effects

/-- What is used of `rlp`: numbers, as items of their own and in a list of up to
three, the header data. What is decoded may be followed by other bytes. -/
class Rlp where
  encodeInt : ℕ → Bytes
  encodeInts : List ℕ → Bytes
  /-- The first item of the bytes as a number, and where it ends. -/
  consumeInt : Bytes → Option (ℕ × ℕ)
  decodeInts : Bytes → Option (List ℕ)
  length_encodeInt (k n : ℕ) (hk : k ≤ 55) (h : n < 256 ^ k) : (encodeInt n).length ≤ k + 1
  encodeInt_ne_nil (n : ℕ) : encodeInt n ≠ []
  length_encodeInts (l : List ℕ) (h : ∀ n ∈ l, n < 2 ^ 32) (hlen : l.length ≤ 3) :
    (encodeInts l).length = 1 + (l.map fun n => (encodeInt n).length).sum
  consumeInt_encodeInt (n : ℕ) (h : n < 2 ^ 32) (rest : Bytes) :
    consumeInt (encodeInt n ++ rest) = some (n, (encodeInt n).length)
  decodeInts_encodeInts (l : List ℕ) (h : ∀ n ∈ l, n < 2 ^ 32) (hlen : l.length ≤ 3)
    (rest : Bytes) : decodeInts (encodeInts l ++ rest) = some l

def rzpad16 (data : Bytes) : Bytes :=
  if data.length % 16 ≠ 0 then data ++ List.replicate (16 - data.length % 16) 0 else data

/-- `struct.pack('>I', n)[1:]`. -/
def packSize (n : ℕ) : Bytes := [.ofNat (n / 256 ^ 2), .ofNat (n / 256), .ofNat n]

structure Packet where
  protocolId : ℕ
  cmdId : ℕ
  payload : Bytes
  prioritize : Bool
deriving DecidableEq

/-- What packets are compared by: all but the priority. -/
def Packet.plain (packet : Packet) : Packet := { packet with prioritize := false }

/-! ## Frames -/

structure Frame where
  protocolId : ℕ
  cmdId : ℕ
  payload : Bytes
  sequenceId : Option ℕ
  isChunkedN : Bool
  /-- Of a chunked-0 frame. -/
  totalPayloadSize : Option ℕ
deriving DecidableEq

namespace Frame

def headerSize : ℕ := 16
def macSize : ℕ := 16
def padding : ℕ := 16
def dummyMac : Bytes := List.replicate macSize 0

variable [Rlp]

def encCmdId (f : Frame) : Bytes := if f.isChunkedN then [] else Rlp.encodeInt f.cmdId

def bodySize (f : Frame) : ℕ := f.encCmdId.length + f.payload.length

def frameSize (f : Frame) : ℕ := headerSize + macSize + ceil16 f.bodySize + macSize

/-- The frame with the first part of its payload that fits the window. -/
def chunk (f : Frame) (windowSize : ℕ) : Frame :=
  { f with
    payload := f.payload.take (f.payload.length - (f.frameSize - windowSize))
    totalPayloadSize := if f.isChunkedN then none else some f.bodySize }

/-- The rest of the payload, which the next frame is for. -/
def remain (f : Frame) (windowSize : ℕ) : Frame :=
  { f with
    payload := f.payload.drop (f.chunk windowSize).payload.length
    isChunkedN := true
    totalPayloadSize := none }

/-- The frames of the constructor with a bound on the recursion. -/
def framesWithin (windowSize : ℕ) : ℕ → Frame → Except Error (List Frame)
  | 0, _ => .error .recursion
  | depth + 1, f => do
      require (windowSize % padding = 0)
      require (f.cmdId < 256)
      require (f.protocolId < 2 ^ 16)
      require (∀ sid ∈ f.sequenceId, sid < 2 ^ 16)
      if windowSize < f.frameSize then
        require ((f.chunk windowSize).frameSize ≤ windowSize)
        let frames ← framesWithin windowSize depth (f.remain windowSize)
        return f.chunk windowSize :: frames
      else return [f]

/-- Every frame but the first takes some of the payload. -/
def frames (windowSize : ℕ) (f : Frame) : Except Error (List Frame) :=
  framesWithin windowSize (f.payload.length + 2) f

/-- The numbers of the header. -/
def headerInts (f : Frame) : Except Error (List ℕ) :=
  match f.totalPayloadSize, f.sequenceId with
  | some _, none => .error .assertion
  | some total, some sid => .ok [f.protocolId, sid, total]
  | none, some sid => .ok [f.protocolId, sid]
  | none, none => .ok [f.protocolId]

def header (f : Frame) : Except Error Bytes := do
  require (f.protocolId < 2 ^ 16)
  require (∀ sid ∈ f.sequenceId, sid < 2 ^ 16)
  let l ← f.headerInts
  let headerData := Rlp.encodeInts l
  require (Rlp.decodeInts headerData = some l)
  require (f.bodySize < 256 ^ 3)
  let header := rzpad16 (packSize f.bodySize ++ headerData)
  require (header.length = headerSize)
  return header

def body (f : Frame) : Bytes :=
  f.encCmdId ++ f.payload ++ List.replicate (ceil16 f.bodySize - f.bodySize) 0

/-- The bytes without a frame cipher. -/
def plainBytes (f : Frame) : Except Error Bytes := do
  let header ← f.header
  require (f.body.length = ceil16 f.bodySize)
  let r := header ++ dummyMac ++ f.body ++ dummyMac
  require (r.length = f.frameSize)
  return r

variable [Aes] [Sha3]

def asBytes (f : Frame) : Effect Error (Option FrameCipher) Bytes := do
  match ← get with
  | none => Effects.ofExcept f.plainBytes
  | some cipher => do
      let header ← Effects.ofExcept f.header
      let e ← cipher.onCipher (FrameCipher.encrypt header f.body)
      Effects.ofExcept (require (e.length = f.frameSize))
      return e

/-- The bytes of frames one after the other. -/
def bytesOf : List Frame → Effect Error (Option FrameCipher) Bytes
  | [] => return []
  | f :: frames => do
      let bytes ← f.asBytes
      let more ← bytesOf frames
      return bytes ++ more

end Frame

/-! ## Queues -/

inductive QueueName
  | priority
  | normal
  | chunked
deriving DecidableEq

/-- The queues of a protocol. -/
structure Queues where
  priority : List Frame
  normal : List Frame
  chunked : List Frame
deriving DecidableEq

namespace Queues

def empty : Queues := ⟨[], [], []⟩

def queue (q : Queues) : QueueName → List Frame
  | .priority => q.priority
  | .normal => q.normal
  | .chunked => q.chunked

def set (q : Queues) (frames : List Frame) : QueueName → Queues
  | .priority => { q with priority := frames }
  | .normal => { q with normal := frames }
  | .chunked => { q with chunked := frames }

def put (q : Queues) (name : QueueName) (frames : List Frame) : Queues :=
  q.set (q.queue name ++ frames) name

def qsize (q : Queues) : ℕ := q.priority.length + q.normal.length + q.chunked.length

end Queues

/-- A turn of a protocol so far: the frames that it took, their size, and how many
of them in this cycle. -/
structure Turn where
  queues : Queues
  frames : List Frame
  size : ℕ
  framesAdded : ℕ
deriving DecidableEq

namespace Turn

variable [Rlp] (pws : ℕ)

def new (queues : Queues) : Turn := ⟨queues, [], 0, 0⟩

/-- Take a frame from a queue, unless two were taken in this cycle. -/
def takeFrom (turn : Turn) (name : QueueName) : Turn :=
  if turn.framesAdded = 2 then turn
  else
    match turn.queues.queue name with
    | [] => turn
    | f :: rest =>
        if turn.size + f.frameSize ≤ pws then
          ⟨turn.queues.set rest name, turn.frames ++ [f], turn.size + f.frameSize,
            turn.framesAdded + 1⟩
        else turn

def cycle (turn : Turn) : Turn :=
  [.priority, .normal, .chunked].foldl (takeFrom pws) { turn with framesAdded := 0 }

/-- The cycles of a turn, of which each but the last takes a frame. -/
def cycles : ℕ → Turn → Turn
  | 0, turn => turn
  | n + 1, turn =>
      if turn.size < pws then
        if (turn.cycle pws).framesAdded = 0 then turn.cycle pws else cycles n (turn.cycle pws)
      else turn

end Turn

/-! ## Sending -/

def maxWindowSize : ℕ := 8 * 1024
def maxPriorityFrameSize : ℕ := 1024

structure Sending where
  queues : List (ℕ × Queues)
  sequenceId : List (ℕ × ℕ)
  lastProtocol : Option ℕ
deriving DecidableEq

namespace Sending

abbrev Action := Effect Error Sending

def new : Sending := ⟨[], [], none⟩

def protocols (s : Sending) : List ℕ := s.queues.map Prod.fst

def isActiveProtocol (s : Sending) (protocolId : ℕ) : Prop :=
  ∃ q ∈ s.queues.lookup protocolId, q.qsize ≠ 0

instance (s : Sending) (protocolId : ℕ) : Decidable (s.isActiveProtocol protocolId) :=
  inferInstanceAs (Decidable (∃ q ∈ s.queues.lookup protocolId, q.qsize ≠ 0))

def numActiveProtocols (s : Sending) : ℕ :=
  (s.protocols.filter fun p => s.isActiveProtocol p).length

/-- The protocol 0 is taken as none. -/
def protocolWindowSize (s : Sending) (protocolId : Option ℕ) : ℕ :=
  let size :=
    if ∃ p ∈ protocolId, p ≠ 0 ∧ ¬ s.isActiveProtocol p then
      maxWindowSize / (1 + s.numActiveProtocols)
    else maxWindowSize / max 1 s.numActiveProtocols
  size - size % 16

/-- The next after the last one, the first after the end. -/
def following (protocols : List ℕ) : Option ℕ → Option ℕ
  | none => none
  | some last =>
      if protocols.getLast? = some last then protocols.head?
      else protocols[protocols.idxOf last + 1]?

def nextProtocol : Action ℕ := do
  let s ← get
  match following s.protocols s.lastProtocol with
  | none => throw .index
  | some next => do
      modify fun s => { s with lastProtocol := some next }
      return next

section Frames

variable [Rlp]

/-- The queue for the frames of a packet. -/
def queueName (packet : Packet) (frames : List Frame) : Except Error QueueName :=
  if packet.prioritize then do
    require (frames.length = 1)
    require (∀ f ∈ frames.head?, f.frameSize ≤ maxPriorityFrameSize)
    return .priority
  else if frames.length = 1 then .ok .normal
  else .ok .chunked

def packetFrame (packet : Packet) (sid : ℕ) : Frame :=
  ⟨packet.protocolId, packet.cmdId, packet.payload, some sid, false, none⟩

def addPacket (packet : Packet) : Action Unit := do
  let s ← get
  match s.sequenceId.lookup packet.protocolId, s.queues.lookup packet.protocolId with
  | some sid, some queues => do
      modify fun s =>
        { s with
          sequenceId := AssocMap.assign packet.protocolId ((sid + 1) % 2 ^ 16) s.sequenceId }
      let frames ← Effects.ofExcept
        ((packetFrame packet sid).frames (s.protocolWindowSize packet.protocolId))
      let name ← Effects.ofExcept (queueName packet frames)
      modify fun s =>
        { s with queues := AssocMap.assign packet.protocolId (queues.put name frames) s.queues }
  | _, _ => throw .key

def popFramesForProtocol (protocolId : ℕ) : Action (List Frame) := do
  let s ← get
  match s.queues.lookup protocolId with
  | none => throw .key
  | some queues => do
      let turn := (Turn.new queues).cycles (s.protocolWindowSize none) (queues.qsize + 1)
      modify fun s => { s with queues := AssocMap.assign protocolId turn.queues s.queues }
      return turn.frames

/-- The frames of the first protocol that has some to send. -/
def popFirst : List ℕ → Action (List Frame)
  | [] => return []
  | protocolId :: rest => do
      let frames ← popFramesForProtocol protocolId
      if frames ≠ [] then return frames else popFirst rest

def popFrames : Action (List Frame) := do
  let s ← get
  let next ← nextProtocol
  let idx := s.protocols.idxOf next
  popFirst (s.protocols.drop idx ++ s.protocols.take idx)

def numFrames (s : Sending) : ℕ := (s.queues.map fun entry => entry.2.qsize).sum

/-- Pop frames until there are none. -/
def popAllWithin : ℕ → Action (List Frame)
  | 0 => return []
  | n + 1 => do
      let r ← popFrames
      if r = [] then return [] else return r ++ (← popAllWithin n)

def popAllFrames : Action (List Frame) := do
  let s ← get
  popAllWithin (s.numFrames + 1)

end Frames

end Sending

/-! ## Receiving -/

/-- A packet of which frames are missing. -/
structure ChunkedPacket extends Packet where
  totalPayloadSize : ℕ
deriving DecidableEq

/-- `chunked_buffers`: packets by protocol and sequence id. -/
abbrev ChunkedBuffers := List (ℕ × List (ℕ × ChunkedPacket))

/-- What decoding keeps from frame to frame. -/
structure Decoding where
  chunkedBuffers : ChunkedBuffers
  cachedDecodeHeader : Option Bytes
  frameCipher : Option FrameCipher
deriving DecidableEq

structure Receiving extends Decoding where
  decodeBuffer : Bytes
deriving DecidableEq

/-- The header data of a frame. -/
structure HeaderData where
  protocolId : ℕ
  sequenceId : Option ℕ
  totalPayloadSize : Option ℕ
deriving DecidableEq

namespace Decoding

section Packets

variable [Rlp]

def headerData (header : Bytes) : Except Error HeaderData :=
  match Rlp.decodeInts (header.drop 3) with
  | none => .error (.deserialization "invalid rlp data")
  | some l => do
      let total := if l.length = 3 then l[2]? else none
      require (∀ n ∈ total, n < 2 ^ 32)
      match l.head? with
      | none => .error .index
      | some protocolId => do
          require (protocolId < 2 ^ 16)
          require (∀ sid ∈ l[1]?, sid < 2 ^ 16)
          return ⟨protocolId, l[1]?, total⟩

/-- A frame for a packet whose first frame came before. -/
def continuePacket (data : HeaderData) (sid : ℕ) (packet : ChunkedPacket) (body : Bytes)
    (chunkbuf : List (ℕ × ChunkedPacket)) :
    Except Error (Option Packet × List (ℕ × ChunkedPacket)) :=
  let protocolId := data.protocolId
  let payload := packet.payload ++ body
  if data.totalPayloadSize.isSome then
    .error (.multiplexer
      s!"received chunked_0 frame for existing buffer {sid} of protocol {protocolId}")
  else if packet.totalPayloadSize < payload.length then
    .error (.multiplexer s!"too much data for chunked buffer {sid} of protocol {protocolId}")
  else if packet.totalPayloadSize = payload.length then
    .ok (some { packet.toPacket with payload := payload },
      chunkbuf.filter fun entry => entry.1 ≠ sid)
  else .ok (none, AssocMap.assign sid { packet with payload := payload } chunkbuf)

/-- A normal frame, or the first of a packet. -/
def startPacket (data : HeaderData) (body : Bytes) (chunkbuf : List (ℕ × ChunkedPacket)) :
    Except Error (Option Packet × List (ℕ × ChunkedPacket)) :=
  match Rlp.consumeInt body with
  | none => .error .rlp
  | some (cmdId, itemEnd) =>
      let packet : Packet := ⟨data.protocolId, cmdId, body.drop itemEnd, false⟩
      match data.totalPayloadSize with
      | none => .ok (some packet, chunkbuf)
      | some total =>
          if total < itemEnd + packet.payload.length then
            .error (.multiplexer "total payload size smaller than initial chunk")
          else if total = itemEnd + packet.payload.length then .ok (some packet, chunkbuf)
          else
            match data.sequenceId with
            | none => .error .assertion
            | some sid => .ok (none, AssocMap.assign sid ⟨packet, total - itemEnd⟩ chunkbuf)

/-- What a frame does to the buffers. -/
def buildPacket (data : HeaderData) (body : Bytes) (buffers : ChunkedBuffers) :
    Except Error (Option Packet × ChunkedBuffers) :=
  let protocolId := data.protocolId
  match buffers.lookup protocolId with
  | none => .error (.multiplexer s!"unknown protocol_id {protocolId}")
  | some chunkbuf => do
      let started := data.sequenceId.bind fun sid => (chunkbuf.lookup sid).map (sid, ·)
      let (packet, chunkbuf) ←
        match started with
        | some (sid, packet) => continuePacket data sid packet body chunkbuf
        | none => startPacket data body chunkbuf
      return (packet, AssocMap.assign protocolId chunkbuf buffers)

def bodySizeOf (header : Bytes) : ℕ := bigEndianToInt (header.take 3)

def requiredLen (header : Bytes) : ℕ :=
  Frame.headerSize + Frame.macSize + ceil16 (bodySizeOf header) + Frame.macSize

end Packets

section Ciphers

variable [Aes] [Sha3]

def decodeHeader (buffer : Bytes) : Effect Error (Option FrameCipher) Bytes := do
  Effects.ofExcept (require (Frame.headerSize + Frame.macSize ≤ buffer.length))
  match ← get with
  | none => return buffer.take Frame.headerSize
  | some cipher =>
      cipher.onCipher (FrameCipher.decryptHeader (buffer.take (Frame.headerSize + Frame.macSize)))

/-- The header and the body of a buffer with a whole frame. Without a frame cipher the
header is read again. -/
def readBody (buffer header : Bytes) : Effect Error (Option FrameCipher) (Bytes × Bytes) := do
  match ← get with
  | none => do
      let body := (buffer.drop (Frame.headerSize + Frame.macSize)).take (bodySizeOf header)
      Effects.ofExcept (require (body.length = bodySizeOf header))
      return (buffer.take Frame.headerSize, body)
  | some cipher => do
      let body ← cipher.onCipher
        (FrameCipher.decryptBody (buffer.drop (Frame.headerSize + Frame.macSize))
          (bodySizeOf header))
      Effects.ofExcept (require (body.length = bodySizeOf header))
      return (header, body)

/-- A computation on the cipher. -/
def ciphering {α : Type} (m : Effect Error (Option FrameCipher) α) : Effect Error Decoding α :=
  onPart (fun d => d.frameCipher) (fun frameCipher d => { d with frameCipher := frameCipher }) m

/-- `decode_body` of a buffer with a whole frame: the packet if this was its last
frame. -/
def decodeBody [Rlp] (buffer header : Bytes) : Effect Error Decoding (Option Packet) := do
  let (header, body) ← ciphering (readBody buffer header)
  let data ← Effects.ofExcept (headerData header)
  let d ← get
  let (packet, buffers) ← Effects.ofExcept (buildPacket data body d.chunkedBuffers)
  modify fun d => { d with chunkedBuffers := buffers }
  return packet

end Ciphers

end Decoding

namespace Receiving

open Decoding

def new (frameCipher : Option FrameCipher) : Receiving := ⟨⟨[], none, frameCipher⟩, []⟩

abbrev Action := Effect Error Receiving

def decoding {α : Type} (m : Effect Error Decoding α) : Action α :=
  onPart (fun s => s.toDecoding) (fun decoding s => { s with toDecoding := decoding }) m

variable [Rlp] [Aes] [Sha3]

omit [Rlp] in
/-- The header of the next frame, once its bytes are there. -/
def cachedHeader : Action (Option Bytes) := do
  let s ← get
  match s.cachedDecodeHeader with
  | some header => return some header
  | none =>
      if s.decodeBuffer.length < Frame.headerSize + Frame.macSize then return none
      else do
        let header ← decoding (ciphering (decodeHeader s.decodeBuffer))
        modify fun s => { s with cachedDecodeHeader := some header }
        return some header

/-- `decode` with a bound on the recursion. A packet without payload is as none. -/
def decodeWithin : ℕ → Action (List Packet)
  | 0 => throw .recursion
  | depth + 1 => do
      match ← cachedHeader with
      | none => return []
      | some header => do
          let s ← get
          if requiredLen header ≤ s.decodeBuffer.length then
            let packet ← decoding (decodeBody s.decodeBuffer header)
            modify fun s =>
              { s with
                cachedDecodeHeader := none
                decodeBuffer := s.decodeBuffer.drop (requiredLen header) }
            let packets ← decodeWithin depth
            return packet.toList.filter (·.payload ≠ []) ++ packets
          else return []

/-- Every frame takes some of the buffer. -/
def decode (data : Bytes) : Action (List Packet) := do
  modify fun s => { s with decodeBuffer := s.decodeBuffer ++ data }
  let s ← get
  decodeWithin (s.decodeBuffer.length + 1)

end Receiving

/-! ## The multiplexer -/

/-- The frames that are written and those that are read have a direction of the frame
cipher each. -/
structure Multiplexer extends Sending, Receiving where
  egress : Option FrameCipher
deriving DecidableEq

namespace Multiplexer

abbrev Action := Effect Error Multiplexer

def new (frameCipher : Option RLPxSession) : Multiplexer :=
  ⟨.new, .new (frameCipher.map RLPxSession.ingress), frameCipher.map RLPxSession.egress⟩

def addProtocol (protocolId : ℕ) : Action Unit := do
  let s ← get
  Effects.ofExcept (require (protocolId ∉ s.protocols))
  modify fun s =>
    { s with
      queues := AssocMap.assign protocolId .empty s.queues
      sequenceId := AssocMap.assign protocolId 0 s.sequenceId
      lastProtocol := some protocolId
      chunkedBuffers := AssocMap.assign protocolId [] s.chunkedBuffers }

/-- A new multiplexer after protocols were added. -/
def registered (frameCipher : Option RLPxSession) (protocols : List ℕ) : Multiplexer :=
  protocols.foldl (fun s protocolId => (outcome (addProtocol protocolId) s).2) (new frameCipher)

def sending {α : Type} (m : Sending.Action α) : Action α :=
  onPart (fun s => s.toSending) (fun sending s => { s with toSending := sending }) m

def writing {α : Type} (m : Effect Error (Option FrameCipher) α) : Action α :=
  onPart (fun s => s.egress) (fun egress s => { s with egress := egress }) m

def popAllFramesAsBytes [Rlp] [Aes] [Sha3] : Action Bytes := do
  let frames ← sending Sending.popAllFrames
  writing (Frame.bytesOf frames)

end Multiplexer

end Hgfrr.Multiplexing
