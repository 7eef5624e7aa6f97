import Hgfrr.Model.Multiplexer

/-!
# Multiplexed sessions

After the handshake all frames of a packet are popped as soon as it is added, and
their encrypted bytes wait in a queue of messages. The packets that come out of the
messages of the other side wait in a queue of packets.
-/

namespace Hgfrr.Multiplexing

open Effects

structure MultiplexedSession extends Multiplexer where
  messageQueue : List Bytes
  packetQueue : List Packet
deriving DecidableEq

namespace MultiplexedSession

abbrev Action := Effect Error MultiplexedSession

/-- A session after the handshake, with protocols that were added. -/
def registered (rlpxSession : RLPxSession) (protocols : List ℕ) : MultiplexedSession :=
  ⟨Multiplexer.registered (some rlpxSession) protocols, [], []⟩

def multiplexer {α : Type} (m : Multiplexer.Action α) : Action α :=
  onPart (fun s => s.toMultiplexer) (fun multiplexer s => { s with toMultiplexer := multiplexer }) m

def receiving {α : Type} (m : Receiving.Action α) : Action α :=
  onPart (fun s => s.toReceiving)
    (fun receiving s =>
      { s with toMultiplexer := { s.toMultiplexer with toReceiving := receiving } }) m

variable [Rlp] [Aes] [Sha3]

def putMessages : List Frame → Action Unit
  | [] => return ()
  | f :: frames => do
      let message ← multiplexer (Multiplexer.writing f.asBytes)
      modify fun s => { s with messageQueue := s.messageQueue ++ [message] }
      putMessages frames

/-- The cipher is set up, so the session is ready. -/
def addPacket (packet : Packet) : Action Unit := do
  let s ← get
  Effects.ofExcept (require s.egress.isSome)
  multiplexer (Multiplexer.sending (Sending.addPacket packet))
  let frames ← multiplexer (Multiplexer.sending Sending.popAllFrames)
  putMessages frames

def addMessage (msg : Bytes) : Action Unit := do
  let packets ← receiving (Receiving.decode msg)
  modify fun s => { s with packetQueue := s.packetQueue ++ packets }

end MultiplexedSession

end Hgfrr.Multiplexing
