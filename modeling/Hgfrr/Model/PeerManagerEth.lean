import Hgfrr.Model.PeerManager

/-!
# The gossip peer manager

The comparison protocol: a node pushes data to a few random peers, or announces
a hash of it and lets the peers pull the data. As for the ring protocol, a
handler is modelled by its calls of `send` and by the failure that cut it short.
Random draws, the clock and the hash function are arguments.
-/

namespace Hgfrr

/-- The arguments of one call of `send`. -/
structure SendCallETH where
  receiver : Node
  msg : Message
  data : Str
deriving DecidableEq, Repr

abbrev SendsETH := Emission Fault SendCallETH

/-- The two modes of gossip broadcast. -/
inductive GossipMode
  | push
  | pull
deriving DecidableEq, Repr

/-- A peer manager with its routing table. -/
structure PeerManagerETH where
  node : Node
  nodeTable : List Node
  msgTable : MessageTable
  broadcastedMsgs : List Str
  broadcastedMsgsAllNodes : List Str
  mode : GossipMode
  dataMap : List (Str × Str)
deriving DecidableEq, Repr

def tableSizeEth : ℕ := 13

def numReceiversEth : ℕ := 3

/-- Insertion into a map, which keeps an entry that is there already. -/
def mapInsert (entry : Str × Str) (map : List (Str × Str)) : List (Str × Str) :=
  if (map.lookup entry.1).isSome then map else map ++ [entry]

/-- `routing_table[id]`. -/
def routingTableAt (routingTable : List Node) (id : ℕ) : Except Fault Node :=
  match routingTable[id]? with
  | some node => .ok node
  | none => .error .undefinedBehaviour

/-- Draw positions of the routing table until enough of them are new. -/
def drawReceivers (routingTable : List Node) :
    (draws : List ℕ) → (missing : ℕ) → (randomIds : List ℤ) → Except Fault (List Node)
  | _, 0, _ => .ok []
  | [], _ + 1, _ => .error .nonTermination
  | rand :: draws, missing + 1, randomIds => do
      let id ← randomNumInRange rand 0 ((tableSizeEth : ℤ) - 1)
      if id ∈ randomIds then drawReceivers routingTable draws (missing + 1) randomIds
      else do
        let receiver ← routingTableAt routingTable id.toNat
        let rest ← drawReceivers routingTable draws missing (id :: randomIds)
        return receiver :: rest

/-- The receivers of one broadcast: nearly always the first of the routing
table, and some random ones. -/
def receiverList (routingTable : List Node) : (draws : List ℕ) → Except Fault (List Node)
  | [] => .error .nonTermination
  | trial :: draws => do
      let first ← if trial % 1000 < 990 then (routingTableAt routingTable 0).map fun node => [node]
        else pure []
      let rest ← drawReceivers routingTable draws (numReceiversEth - 1) [0]
      return first ++ rest

namespace PeerManagerETH

variable (pm : PeerManagerETH)

/-- `this->node->get_id()` followed by a counter. -/
def numbered (width n : ℕ) : Str := pm.node.id ++ setw width n

/-- The id of the next message. -/
def nextMessageId : Str := pm.numbered 24 pm.msgTable.numMsgsInTotal

/-- The datagram of a message: sender id, receiver id, broadcast id, message id,
type, ttl, then the data. -/
def dataString (node : Node) (messageId : Str) (msg : Message) (data : Str) : Str :=
  pm.node.id ++ [','] ++ node.id ++ [','] ++ msg.broadcastId ++ [','] ++ messageId ++ [','] ++
    toString msg.type ++ [','] ++ toString msg.ttl ++ [','] ++ data

/-- Send a message, to oneself as well. The address and the text go to the
transport. The log file, to which the source appends a record, is left out. -/
def send (now : ℤ) (call : SendCallETH) : PeerManagerETH × Str × ℕ × Str :=
  let messageId := pm.nextMessageId
  ({ pm with msgTable := pm.msgTable.insertSent now (call.msg.setMessageId messageId) },
    call.receiver.ip, call.receiver.port,
    pm.dataString call.receiver messageId call.msg call.data)

/-- A message of the pull protocol: 1 for an invitation, 2 for data, 3 for a
request. -/
def sendPull (type : ℤ) (node : Node) (data broadcastId : Str) : SendCallETH :=
  ⟨node, (Message.mkEth broadcastId [] pm.node.id node.id).setType type, data⟩

/-- Send a data hash as invitation. -/
def sendInv (node : Node) (dataHash broadcastId : Str) : SendCallETH :=
  pm.sendPull 1 node dataHash broadcastId

/-- Send the real data. -/
def sendData (node : Node) (data broadcastId : Str) : SendCallETH :=
  pm.sendPull 2 node data broadcastId

/-- Send a request for data. -/
def sendRequest (node : Node) (dataHash broadcastId : Str) : SendCallETH :=
  pm.sendPull 3 node dataHash broadcastId

/-- The call of `send` for one receiver of a broadcast. -/
def broadcastTo (hash : Str → ℕ) (data : Str) (ttl : ℤ) (broadcastId : Str) (receiver : Node) :
    SendCallETH :=
  match pm.mode with
  | .push =>
      ⟨receiver,
        ((Message.mkEth broadcastId [] pm.node.id []).setTTL ttl).setReceiverId receiver.id, data⟩
  | .pull => pm.sendInv receiver (toString (hash data)) broadcastId

/-- A node wants to broadcast. An empty broadcast id asks for a new one. -/
def broadcast (hash : Str → ℕ) (draws : List ℕ) (data : Str) (ttl : ℤ) (broadcastId : Str) :
    PeerManagerETH × SendsETH :=
  let newBroadcast := broadcastId = []
  let broadcastId := if newBroadcast then pm.numbered 16 pm.broadcastedMsgs.length else broadcastId
  let pm' := if newBroadcast then
      { pm with
        broadcastedMsgs := pm.broadcastedMsgs ++ [broadcastId]
        dataMap := mapInsert (toString (hash data), data) pm.dataMap }
    else pm
  (pm', Emission.ofExcept (receiverList pm.nodeTable draws) fun receivers =>
    ⟨receivers.map (pm'.broadcastTo hash data ttl broadcastId), none⟩)

/-- The text before a bar, all of it without a bar. -/
def beforeBar (data : Str) : Str := (find data '|' 0).elim data data.take

/-- The text after a bar, all of it without a bar. -/
def afterBar (data : Str) : Str := data.drop (afterPos (find data '|' 0))

/-- A message in pull mode. -/
def onReceivePull (hash : Str → ℕ) (draws : List ℕ) (msg : Message) (data ip : Str) (port : ℕ) :
    PeerManagerETH × SendsETH :=
  let sender : Node := ⟨msg.senderId, ip, port⟩
  match msg.type with
  | 1 =>
      if (pm.dataMap.lookup data).isSome then (pm, Emission.done)
      else (pm, Emission.emit (pm.sendRequest sender data msg.broadcastId))
  | 2 =>
      let pm' := { pm with dataMap := mapInsert (beforeBar data, afterBar data) pm.dataMap }
      pm'.broadcast hash draws (afterBar data) 0 msg.broadcastId
  | 3 =>
      match pm.dataMap.lookup (beforeBar data) with
      | none => (pm, Emission.fail .undefinedBehaviour)
      | some realData =>
          (pm, Emission.emit (pm.sendData sender (data ++ ['|'] ++ realData) msg.broadcastId))
  | _ => (pm, Emission.done)

/-- A message in push mode: data seen before is not sent on. -/
def onReceivePush (hash : Str → ℕ) (draws : List ℕ) (msg : Message) (data : Str) :
    PeerManagerETH × SendsETH :=
  if msg.broadcastId ∈ pm.broadcastedMsgsAllNodes then (pm, Emission.done)
  else
    let pm' := { pm with
      broadcastedMsgsAllNodes := pm.broadcastedMsgsAllNodes ++ [msg.broadcastId] }
    pm'.broadcast hash draws data (msg.ttl - 1) msg.broadcastId

/-- On receiving a message: the simulated delay, then the control flow. -/
def onReceive (hash : Str → ℕ) (draws : List ℕ) (msg : Message) (data ip : Str) (port : ℕ) :
    PeerManagerETH × SendsETH :=
  match hopDelay msg.senderId pm.node.id with
  | .error fault => (pm, Emission.fail fault)
  | .ok _ =>
      match pm.mode with
      | .pull => pm.onReceivePull hash draws msg data ip port
      | .push => pm.onReceivePush hash draws msg data

end PeerManagerETH

/-- The fields of a gossip datagram, the ttl as text. -/
structure DatagramETH where
  senderId : Str
  receiverId : Str
  broadcastId : Str
  messageId : Str
  type : ℤ
  ttl : Str
  data : Str
deriving DecidableEq, Repr

def parseDatagramETH (data : Str) : Except Fault DatagramETH := do
  let (senderId, posEnd) ← readField data none
  let (receiverId, posEnd) ← readField data posEnd
  let (broadcastId, posEnd) ← readField data posEnd
  let (messageId, posEnd) ← readField data posEnd
  let (type, posEnd) ← readField data posEnd
  let type ← stoi type
  let (ttl, posEnd) ← readField data posEnd
  let dataInMsg ← substrFrom data (afterPos posEnd)
  return ⟨senderId, receiverId, broadcastId, messageId, type, ttl, dataInMsg⟩

/-- The message of a datagram, and its data. In push mode nothing is handled
that has no hops left. -/
def readDatagramETH (mode : GossipMode) (data : Str) : Except Fault (Option (Message × Str)) := do
  let datagram ← parseDatagramETH data
  if datagram.ttl = ['0'] ∧ mode = .push then return none
  else do
    let ttl ← stoi datagram.ttl
    let msg := Message.mkEth datagram.broadcastId datagram.messageId datagram.senderId
      datagram.receiverId
    return some ((msg.setTTL ttl).setType datagram.type, datagram.data)

/-- On receiving a packet: parse it, note it in the message table, and enter the control
flow. The log file, to which the source appends a record, is left out. -/
def PeerManagerETH.receive (pm : PeerManagerETH) (hash : Str → ℕ) (now : ℤ) (draws : List ℕ)
    (ip : Str) (port : ℕ) (data : Str) : PeerManagerETH × SendsETH :=
  match readDatagramETH pm.mode data with
  | .error fault => (pm, Emission.fail fault)
  | .ok none => (pm, Emission.done)
  | .ok (some (msg, dataInMsg)) =>
      let pm' := { pm with msgTable := pm.msgTable.insertReceived now msg }
      pm'.onReceive hash draws msg dataInMsg ip port

/-! ## What handlers leave alone -/

namespace PeerManagerETH

/-- The parts of a peer manager that only `send` and `receive` change, or
nothing does. -/
structure SameNode (pm pm' : PeerManagerETH) : Prop where
  node : pm'.node = pm.node
  nodeTable : pm'.nodeTable = pm.nodeTable
  mode : pm'.mode = pm.mode
  msgTable : pm'.msgTable = pm.msgTable

theorem SameNode.refl (pm : PeerManagerETH) : pm.SameNode pm := ⟨rfl, rfl, rfl, rfl⟩

variable (pm : PeerManagerETH) (hash : Str → ℕ) (draws : List ℕ)

theorem broadcast_sameNode (data : Str) (ttl : ℤ) (broadcastId : Str) :
    pm.SameNode (pm.broadcast hash draws data ttl broadcastId).1 := by
  unfold broadcast
  dsimp only
  split
  · exact ⟨rfl, rfl, rfl, rfl⟩
  · exact .refl pm

theorem onReceivePull_sameNode (msg : Message) (data ip : Str) (port : ℕ) :
    pm.SameNode (pm.onReceivePull hash draws msg data ip port).1 := by
  unfold onReceivePull
  dsimp only
  split
  · split <;> exact .refl pm
  · have hsame := broadcast_sameNode { pm with
      dataMap := mapInsert (beforeBar data, afterBar data) pm.dataMap } hash draws (afterBar data) 0
      msg.broadcastId
    exact ⟨hsame.node, hsame.nodeTable, hsame.mode, hsame.msgTable⟩
  · split <;> exact .refl pm
  · exact .refl pm

theorem onReceivePush_sameNode (msg : Message) (data : Str) :
    pm.SameNode (pm.onReceivePush hash draws msg data).1 := by
  unfold onReceivePush
  split
  · exact .refl pm
  · have hsame := broadcast_sameNode { pm with
      broadcastedMsgsAllNodes := pm.broadcastedMsgsAllNodes ++ [msg.broadcastId] } hash draws data
      (msg.ttl - 1) msg.broadcastId
    exact ⟨hsame.node, hsame.nodeTable, hsame.mode, hsame.msgTable⟩

theorem onReceive_sameNode (msg : Message) (data ip : Str) (port : ℕ) :
    pm.SameNode (pm.onReceive hash draws msg data ip port).1 := by
  unfold onReceive
  split
  · exact .refl pm
  · split
    · exact pm.onReceivePull_sameNode hash draws msg data ip port
    · exact pm.onReceivePush_sameNode hash draws msg data

end PeerManagerETH

end Hgfrr
