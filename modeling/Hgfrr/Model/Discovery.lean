import Hgfrr.Model.NodeObjects

/-!
# Discovery

Nodes ping one another with UDP datagrams: the own id and a command byte behind it. The
receiver cuts the id off at eight characters and tests bits of the character there.
-/

namespace Hgfrr

/-- A datagram on its way to an address. -/
structure UdpDatagram where
  ip : Str
  port : ℕ
  data : Str
deriving DecidableEq, Repr

namespace Discovery

/-- A UDP packet, which is its payload. -/
structure Packet where
  payload : Str
deriving DecidableEq, Repr

def Packet.pack (packet : Packet) : Str := packet.payload

def Packet.unpack (datagram : Str) : Packet := ⟨datagram⟩

def cmdPing : Char := Char.ofNat 1

def cmdPong : Char := Char.ofNat 2

/-- `cmd & command` -/
def hasCommand (cmd command : Char) : Bool := cmd.toNat &&& command.toNat != 0

/-- What a call does: the datagrams that it sends, and the nodes as it leaves them. The
rings stay as they are. -/
structure Effect where
  sent : List UdpDatagram
  store : Store

variable (table : ObjectTable) (store : Store)

def send (ip : Str) (port : ℕ) (payload : Str) : UdpDatagram := ⟨ip, port, (Packet.mk payload).pack⟩

def sendPing (id ip : Str) (port : ℕ) (now : ℤ) : Except Fault Effect := do
  let datagram := send ip port (table.selfId ++ [cmdPing])
  if ← table.hasNode 0 id then return ⟨[datagram], ← table.setNodeLastPingNow store 0 id now⟩
  else return ⟨[datagram], store⟩

def sendPong (ip : Str) (port : ℕ) : Effect :=
  ⟨[send ip port (table.selfId ++ [cmdPong])], store⟩

def receivePing (ip : Str) (port : ℕ) : Effect := sendPong table store ip port

def receivePong (id : Str) (now : ℤ) : Except Fault Effect := do
  if ← table.hasNode 0 id then return ⟨[], ← table.setNodeLastPongNow store 0 id now⟩
  else return ⟨[], store⟩

/-- A datagram from an address comes in, while the clock shows `now`. -/
def receive (ip : Str) (port : ℕ) (datagram : Str) (now : ℤ) : Except Fault Effect := do
  let unpackedData := (Packet.unpack datagram).payload
  let id ← substr unpackedData 0 8
  let cmd ← match unpackedData[8]? with
    | some cmd => .ok cmd
    | none => .error .outOfRange
  let _ ← substrFrom unpackedData 9
  if hasCommand cmd cmdPing then return receivePing table store ip port
  else if hasCommand cmd cmdPong then receivePong table store id now
  else return ⟨[], store⟩

end Discovery

end Hgfrr
