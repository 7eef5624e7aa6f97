import Hgfrr.Multiplexer.FrameBytes
import Hgfrr.Multiplexer.Progress

/-!
# A link between two multiplexers

Packets are added on one side, their frames are popped and written to the wire, and
pieces of the wire of any size are decoded on the other side, in any order of these
steps. The two multiplexers have no frame cipher, or those of two sessions after one
handshake.
-/

namespace Hgfrr.Multiplexing

open Effects

section Fresh

variable [Rlp] [Aes] [Sha3] {m : Multiplexer} {frameCipher : Option RLPxSession}

/-- A new multiplexer expects what is written from the state of its cipher on. -/
theorem Multiplexer.Fresh.expects (h : m.Fresh frameCipher) :
    m.toDecoding.Expects [] (frameCipher.map RLPxSession.ingress) := by
  have hd : m.toDecoding = ⟨m.chunkedBuffers, none, frameCipher.map RLPxSession.ingress⟩ := by
    rw [← h.cachedDecodeHeader, ← h.frameCipher]
  rw [hd]
  exact .header .nil

/-- A multiplexer that has received nothing waits for a header. -/
theorem Multiplexer.Fresh.waits (h : m.Fresh frameCipher) :
    m.decodeBuffer.length < Decoding.framing.need m.toDecoding := by
  rw [h.decodeBuffer]
  exact m.toDecoding.need_pos

end Fresh

/-- The two sides and the bytes between them. The packets that were taken on one side,
with the queues they went to, and those that came out on the other are recorded. -/
structure Link where
  sender : Sending
  egress : Option FrameCipher
  wire : Bytes
  receiver : Receiving
  added : List (Lane × Packet)
  received : List Packet

namespace Link

inductive Event
  | add (packet : Packet)
  | pop
  | deliver (size : ℕ)

/-- The frame ciphers of both sides, if they have one, come from one handshake. -/
def Agreed [Sha3] (ciphers : Option (RLPxSession × RLPxSession)) : Prop :=
  ∀ sessions ∈ ciphers, RLPxSession.SameHandshake sessions.1 sessions.2

/-- What one side writes with is what the other reads with. -/
theorem Agreed.egress_eq [Sha3] {ciphers : Option (RLPxSession × RLPxSession)}
    (h : Agreed ciphers) : (ciphers.map Prod.fst).map RLPxSession.egress =
      (ciphers.map Prod.snd).map RLPxSession.ingress := by
  cases ciphers with
  | none => rfl
  | some sessions => exact congrArg some (h sessions rfl).egress_eq

/-- The frame ciphers and the protocols of both sides. -/
def start (ciphers : Option (RLPxSession × RLPxSession)) (protocols others : List ℕ) : Link where
  sender := (Multiplexer.registered (ciphers.map Prod.fst) protocols).toSending
  egress := (Multiplexer.registered (ciphers.map Prod.fst) protocols).egress
  wire := []
  receiver := (Multiplexer.registered (ciphers.map Prod.snd) others).toReceiving
  added := []
  received := []

variable [Rlp] [Aes] [Sha3]

open Sending in
/-- The queue that a packet goes to. -/
def queueFor (s : Sending) (packet : Packet) : Except Error QueueName :=
  match s.sequenceId.lookup packet.protocolId with
  | none => .error .key
  | some sid => do
      let frames ← (packetFrame packet sid).frames (s.protocolWindowSize packet.protocolId)
      queueName packet frames

def add (l : Link) (packet : Packet) : Link :=
  match outcome (Sending.addPacket packet) l.sender, queueFor l.sender packet with
  | (.ok _, sender), .ok name =>
      { l with sender := sender, added := l.added ++ [((packet.protocolId, name), packet)] }
  | (_, sender), _ => { l with sender := sender }

def pop (l : Link) : Link :=
  match outcome Sending.popFrames l.sender with
  | (.ok frames, sender) =>
      match outcome (Frame.bytesOf frames) l.egress with
      | (.ok bytes, egress) =>
          { l with sender := sender, egress := egress, wire := l.wire ++ bytes }
      | (.error _, egress) => { l with sender := sender, egress := egress }
  | (.error _, sender) => { l with sender := sender }

def deliver (l : Link) (size : ℕ) : Link :=
  match outcome (Receiving.decode (l.wire.take size)) l.receiver with
  | (.ok packets, receiver) =>
      { l with
        wire := l.wire.drop size
        receiver := receiver
        received := l.received ++ packets }
  | (.error _, receiver) => { l with wire := l.wire.drop size, receiver := receiver }

def step (l : Link) : Event → Link
  | .add packet => l.add packet
  | .pop => l.pop
  | .deliver size => l.deliver size

/-- A frame that was written to the wire and is not decoded yet: what is not decoded is
what was written last. -/
def OnWire (l : Link) (f : Frame) : Prop :=
  ∃ egress flight, outcome (Frame.bytesOf flight) egress =
    (.ok (l.receiver.decodeBuffer ++ l.wire), l.egress) ∧ f ∈ flight

/-- A packet with the sequence id is on its way. -/
def Underway (l : Link) (protocolId sid : ℕ) : Prop :=
  (∃ f, (l.sender.Holds protocolId f ∨ (l.OnWire f ∧ f.protocolId = protocolId)) ∧
    f.sequenceId = some sid) ∨
  ∃ chunkbuf ∈ l.receiver.chunkedBuffers.lookup protocolId, sid ∈ chunkbuf.map Prod.fst

/-- The size of a packet fits its field, and its sequence id is not that of a packet
on its way. -/
def Allows (l : Link) : Event → Prop
  | .add packet => packet.payload.length + 2 < 2 ^ 32 ∧
      ∀ sid ∈ l.sender.sequenceId.lookup packet.protocolId, ¬ l.Underway packet.protocolId sid
  | .pop => True
  | .deliver _ => True

/-- An add leaves the window divided. -/
def Divides (l : Link) : Event → Prop
  | .add packet => (Sending.Event.add packet).Divides l.sender
  | .pop => True
  | .deliver _ => True

/-- The states after any steps that are allowed. -/
inductive Reachable (allows : Link → Event → Prop) (ciphers : Option (RLPxSession × RLPxSession))
    (protocols others : List ℕ) : Link → Prop
  | start : Reachable allows ciphers protocols others (start ciphers protocols others)
  | step {l : Link} {event : Event} (h : Reachable allows ciphers protocols others l)
      (hallows : allows l event) : Reachable allows ciphers protocols others (l.step event)

end Link

/-! ## Building packets -/

namespace Decoding

variable [Rlp] {p sid cmdId n : ℕ} {payload body : Bytes} {buffers : ChunkedBuffers}
  {chunkbuf : List (ℕ × ChunkedPacket)} {packet : ChunkedPacket}

/-- A frame without a total size, and without chunks before it, is a packet. -/
theorem buildPacket_normal (hchunkbuf : buffers.lookup p = some chunkbuf)
    (hsid : chunkbuf.lookup sid = none) (hcmd : cmdId < 2 ^ 32) :
    buildPacket ⟨p, some sid, none⟩ (Rlp.encodeInt cmdId ++ payload) buffers =
      .ok (some ⟨p, cmdId, payload, false⟩, buffers) := by
  simp only [buildPacket, hchunkbuf, Option.bind_some, hsid, Option.map_none, startPacket,
    Rlp.consumeInt_encodeInt cmdId hcmd, List.drop_left, Bind.bind, Except.bind, Pure.pure,
    Except.pure, AssocMap.assign_of_lookup hchunkbuf]

theorem buildPacket_chunked0 (hchunkbuf : buffers.lookup p = some chunkbuf)
    (hsid : chunkbuf.lookup sid = none) (hcmd : cmdId < 2 ^ 32) (hlt : payload.length < n) :
    buildPacket ⟨p, some sid, some ((Rlp.encodeInt cmdId).length + n)⟩
        (Rlp.encodeInt cmdId ++ payload) buffers =
      .ok (none, AssocMap.assign p
        (AssocMap.assign sid ⟨⟨p, cmdId, payload, false⟩, n⟩ chunkbuf) buffers) := by
  simp only [buildPacket, hchunkbuf, Option.bind_some, hsid, Option.map_none, startPacket,
    Rlp.consumeInt_encodeInt cmdId hcmd, List.drop_left, Bind.bind, Except.bind, Pure.pure,
    Except.pure]
  rw [if_neg (by omega), if_neg (by omega), Nat.add_sub_cancel_left]

theorem buildPacket_chunkedN (hchunkbuf : buffers.lookup p = some chunkbuf)
    (hsid : chunkbuf.lookup sid = some packet)
    (hlt : (packet.payload ++ body).length < packet.totalPayloadSize) :
    buildPacket ⟨p, some sid, none⟩ body buffers =
      .ok (none, AssocMap.assign p
        (AssocMap.assign sid { packet with payload := packet.payload ++ body } chunkbuf)
        buffers) := by
  simp only [buildPacket, hchunkbuf, Option.bind_some, hsid, Option.map_some, continuePacket,
    Option.isSome_none, Bind.bind, Except.bind, Pure.pure, Except.pure]
  rw [if_neg Bool.false_ne_true, if_neg (by omega), if_neg (by omega)]

/-- The last chunk completes the packet. -/
theorem buildPacket_last (hchunkbuf : buffers.lookup p = some chunkbuf)
    (hsid : chunkbuf.lookup sid = some packet)
    (heq : packet.totalPayloadSize = (packet.payload ++ body).length) :
    buildPacket ⟨p, some sid, none⟩ body buffers =
      .ok (some { packet.toPacket with payload := packet.payload ++ body },
        AssocMap.assign p (chunkbuf.filter fun entry => entry.1 ≠ sid) buffers) := by
  simp only [buildPacket, hchunkbuf, Option.bind_some, hsid, Option.map_some, continuePacket,
    Option.isSome_none, Bind.bind, Except.bind, Pure.pure, Except.pure]
  rw [if_neg Bool.false_ne_true, if_neg (by omega), if_pos heq]

end Decoding

end Hgfrr.Multiplexing
