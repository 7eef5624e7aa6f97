import Hgfrr.Model.Multiplexer

/-!
# Peers

A peer sends the packets of its protocols over the multiplexer and gives those that
come in to their protocols. With old peers the commands of all protocols are numbered
one after the other, and every packet is one of protocol 0.
-/

namespace Hgfrr.Multiplexing

/-- A protocol, the highest number of its reserved commands, and the commands of
`cmd_by_id`. -/
structure Protocol where
  protocolId : ℕ
  maxCmdId : ℕ
  cmdIds : List ℕ
deriving DecidableEq

inductive PeerError
  | assertion (text : String)
  | key
  | unknownCommand (text : String)
deriving DecidableEq

/-- The protocols in the order in which they were connected. -/
structure Peer where
  protocols : List Protocol
  offsetBasedDispatch : Bool
deriving DecidableEq

namespace Peer

/-- What the commands of a protocol before that of the packet add to its number. -/
def shift (protocol : Protocol) : ℕ :=
  if protocol.maxCmdId = 0 then 0 else protocol.maxCmdId + 1

/-- The number of a command after those of the protocols before. -/
def rewriteCmdId (protocolId : ℕ) : ℕ → List Protocol → ℕ
  | cmdId, [] => cmdId
  | cmdId, protocol :: rest =>
      if protocolId = protocol.protocolId then cmdId
      else rewriteCmdId protocolId (cmdId + shift protocol) rest

/-- The packet for the multiplexer. -/
def sendPacket (peer : Peer) (packet : Packet) : Except PeerError Packet :=
  match peer.protocols.find? fun protocol => packet.protocolId = protocol.protocolId with
  | none => .error (.assertion "no protocol found")
  | some protocol =>
      if packet.cmdId ∉ protocol.cmdIds then .error .key
      else if peer.offsetBasedDispatch then
        .ok { packet with
          protocolId := 0
          cmdId := rewriteCmdId packet.protocolId packet.cmdId peer.protocols }
      else .ok packet

/-- The protocol in whose space a number is. -/
def protocolAt (cmdId : ℕ) : ℕ → List Protocol → Option (Protocol × ℕ)
  | _, [] => none
  | maxId, protocol :: rest =>
      if cmdId < maxId + protocol.maxCmdId + 1 then some (protocol, cmdId - maxId)
      else protocolAt cmdId (maxId + protocol.maxCmdId + 1) rest

def protocolCmdIdFromPacket (peer : Peer) (packet : Packet) : Except PeerError (Protocol × ℕ) :=
  if peer.offsetBasedDispatch then
    match protocolAt packet.cmdId 0 peer.protocols with
    | some found => .ok found
    | none => .error (.unknownCommand s!"no protocol for id {packet.cmdId}")
  else
    match peer.protocols.find? fun protocol => packet.protocolId = protocol.protocolId with
    | some protocol => .ok (protocol, packet.cmdId)
    | none => .error (.unknownCommand s!"no protocol for protocol id {packet.protocolId}")

/-- What becomes of a packet: a protocol receives it, it is passed over, or the peer
stops. -/
inductive Handled
  | received (protocol : Protocol) (packet : Packet)
  | ignored
  | stopped
deriving DecidableEq

def handlePacket (peer : Peer) (packet : Packet) : Handled :=
  match protocolCmdIdFromPacket peer packet with
  | .error _ => .ignored
  | .ok (protocol, cmdId) =>
      if cmdId ∈ protocol.cmdIds then .received protocol { packet with cmdId := cmdId }
      else .stopped

end Peer

end Hgfrr.Multiplexing
