import Hgfrr.Foundation.Handling
import Hgfrr.Model.Message

/-!
# The peer manager

Handling a message leads to calls of `send`. A handler is modelled by the calls
it makes, in order, and by the failure that cut it short, if there was one.
`send` then either hands the message to the node itself or puts a datagram on
the wire. Random choices and the clock are arguments.
-/

namespace Hgfrr

/-- The arguments of one call of `send`. Sets are lists in iteration order. -/
structure SendCall where
  receiver : Node
  msg : Message
  data : Str
  sentIds : List Str
deriving DecidableEq, Repr

/-- The sends of a routine. -/
abbrev Sends := Emission Fault SendCall

structure PeerManager where
  node : Node
  nodeTable : NodeTable
  msgTable : MessageTable
  broadcastedMsgs : List Str
deriving DecidableEq, Repr

/-- Where a call of `send` leads. -/
inductive Dispatch
  | toSelf (msg : Message) (data : Str) (sentIds : List Str)
  | datagram (ip : Str) (port : ℕ) (text : Str)
deriving DecidableEq, Repr

/-- One child in the tree of a ring: its order, and the position of the peer
that gets it. -/
structure RingStep where
  currentId : ℤ
  targetNodeIdInVector : ℤ
deriving DecidableEq, Repr

/-- What a handler does next: one call of `broadcast_up` or of
`broadcast_within_ring`. -/
inductive Relay
  | up (msg : Message) (currentLevel : ℕ)
  | withinRing (msg : Message) (currentLevel : ℕ) (sentIds : List Str)
deriving DecidableEq, Repr

/-- Start and length of the id segment that belongs to a level. -/
def levelToId : ℕ → Except Fault (ℕ × ℕ)
  | 0 => .ok (23, 9)
  | 1 => .ok (18, 5)
  | 2 => .ok (12, 6)
  | 3 => .ok (7, 5)
  | 4 => .ok (3, 4)
  | 5 => .ok (0, 3)
  | _ => .error .undefinedBehaviour

/-- The single id of a region's representative, `std::string(ID_SINGLE_LEN, '0')`. -/
def zeroSingle : Str := List.replicate 9 '0'

/-- Position of the peer `step` places after `vectorId`, with the single
wrap-around of the source. -/
def wrapTarget (vectorId step endId : ℤ) : ℤ :=
  if vectorId + step > endId then vectorId + step - (endId + 1) else vectorId + step

/-- The loop over powers of `k`, from exponent `i` on. -/
def ringSteps (endId nodeOrder vectorId : ℤ) (k : ℕ) : (fuel i : ℕ) → Except Fault (List RingStep)
  | 0, _ => .error .nonTermination
  | fuel + 1, i =>
      if nodeOrder + (k : ℤ) ^ i ≤ endId then
        if (k : ℤ) ^ i ≤ nodeOrder then ringSteps endId nodeOrder vectorId k fuel (i + 1)
        else do
          let rest ← ringSteps endId nodeOrder vectorId k fuel (i + 1)
          return ⟨nodeOrder + (k : ℤ) ^ i, wrapTarget vectorId ((k : ℤ) ^ i) endId⟩ :: rest
      else .ok []

/-- `rand() % (high - low + 1) + low`. -/
def randomNumInRange (rand : ℕ) (low high : ℤ) : Except Fault ℤ :=
  if high - low + 1 = 0 then .error .undefinedBehaviour
  else .ok (Int.tmod rand (high - low + 1) + low)

def numContactNodes : ℕ := 3

/-- Draw positions of a peer list until enough of them are new. -/
def drawContactNodes (numPeers : ℤ) :
    (draws : List ℕ) → (missing : ℕ) → (randomIds : List ℤ) → Except Fault (List ℤ)
  | _, 0, randomIds => .ok randomIds
  | [], _ + 1, _ => .error .nonTermination
  | rand :: draws, missing + 1, randomIds =>
      if numPeers = 0 then .error .undefinedBehaviour
      else if Int.tmod rand numPeers ∈ randomIds then
        drawContactNodes numPeers draws (missing + 1) randomIds
      else drawContactNodes numPeers draws missing (Int.tmod rand numPeers :: randomIds)

/-- The class of the simulated delay between two nodes. -/
def hopDelay (senderId receiverId : Str) : Except Fault ℕ := do
  if (← substr senderId 0 (0 + 3)) ≠ (← substr receiverId 0 (0 + 3)) then return 5
  if (← substr senderId 3 (3 + 4)) ≠ (← substr receiverId 3 (3 + 4)) then return 4
  if (← substr senderId 7 (7 + 5)) ≠ (← substr receiverId 7 (7 + 5)) then return 3
  if (← substr senderId 12 (12 + 6)) ≠ (← substr receiverId 12 (12 + 6)) then return 2
  if (← substr senderId 18 (18 + 5)) ≠ (← substr receiverId 18 (18 + 5)) then return 1
  return 0

namespace PeerManager

variable (pm : PeerManager)

/-- `this->node->get_id()` followed by a counter. -/
def numbered (width n : ℕ) : Str := pm.node.id ++ setw width n

/-- The id of the next message. -/
def nextMessageId : Str := pm.numbered 24 pm.msgTable.numMsgsInTotal

/-- The peer that gets a step of the tree. Dereferencing a null pointer is
undefined. -/
def receiverOf (currentLevel : ℕ) (step : RingStep) : Except Fault Node := do
  match ← pm.nodeTable.getPeerByOrder currentLevel step.targetNodeIdInVector with
  | some receiver => return receiver
  | none => throw .undefinedBehaviour

/-- The call of `send` for one step. Only receivers whose single id is all
zeros are asked to broadcast downwards as well. -/
def sendStep (msg : Message) (currentLevel : ℕ) (data : Str) (sentIds : List Str)
    (step : RingStep) : Except Fault SendCall := do
  let receiver ← pm.receiverOf currentLevel step
  let idLower ← if currentLevel = 0 then pure [] else substr receiver.id 23 9
  let type := if currentLevel = 0 then 5 else if idLower ≠ zeroSingle then 5 else 2
  return {
    receiver := receiver
    msg := ((msg.setReceiverId receiver.id).setNodeOrder step.currentId).setType type
    data := data
    sentIds := sentIds }

/-- Broadcast to the nodes within the ring, along the tree of powers of `k`.
The first pass over the steps collects the region ids, the second sends. -/
def broadcastWithinRing (msg : Message) (currentLevel k : ℕ) (data : Str) (sentIds : List Str) :
    Sends :=
  let prepared : Except Fault (List RingStep × List Str) := do
    let endId ← pm.nodeTable.getPeerListSize currentLevel
    let vectorId ← pm.nodeTable.getNodeIdInVector currentLevel pm.node.id
    let (start, length) ← levelToId currentLevel
    let thisId ← substr pm.node.id start length
    let steps ← ringSteps endId msg.nodeOrder vectorId k ((endId - msg.nodeOrder).toNat + 1) 0
    let regionIds ← steps.mapM fun step => do
      let receiver ← pm.receiverOf currentLevel step
      substr receiver.id start length
    return (steps, regionIds.foldl (fun set regionId => setInsert regionId set)
      (setInsert thisId sentIds))
  Emission.ofExcept prepared fun (steps, sentIdsForReceivers) =>
    Emission.sequence (steps.map fun step =>
      Emission.ofExcept (pm.sendStep msg currentLevel data sentIdsForReceivers step) Emission.emit)

/-- Ask a contact node of the ring above, or broadcast in the ring when there
is none. -/
def broadcastUp (rand : ℕ) (msg : Message) (currentLevel : ℕ) (data : Str) : Sends :=
  Emission.ofExcept (pm.nodeTable.getContactNodes (ulong (currentLevel + 1))) fun contactNodes =>
    if contactNodes.length = 0 then pm.broadcastWithinRing msg currentLevel 2 data []
    else
      match contactNodes[rand % contactNodes.length]? with
      | none => Emission.fail .undefinedBehaviour
      | some receiver =>
          Emission.emit ⟨receiver, msg.setReceiverId receiver.id, data, []⟩

/-- Ask a contact node of the ring below. Nothing calls it. The early return is for
the case that there are contact nodes. -/
def broadcastDown (rand : ℕ) (msg : Message) (currentLevel : ℕ) (data : Str) : Sends :=
  Emission.ofExcept (pm.nodeTable.getContactNodes (ulong ((currentLevel : ℤ) - 1)))
    fun contactNodes =>
      if contactNodes.length ≠ 0 then Emission.done
      else if contactNodes.length = 0 then Emission.fail .undefinedBehaviour
      else
        match contactNodes[rand % contactNodes.length]? with
        | none => Emission.fail .undefinedBehaviour
        | some receiver =>
            Emission.emit ⟨receiver, msg.setReceiverId receiver.id, data, []⟩

/-- The calls for the rings below, down to level zero. -/
def downwards (msg : Message) (messageId : Str) (levels : List ℕ) : List Relay :=
  levels.map fun level =>
    .withinRing ((Message.mkHgfrr msg.broadcastId messageId 2 level pm.node.id []).setNodeOrder 0)
      level []

/-- The `switch` of `on_receive`. -/
def controlFlow (msg : Message) (messageId : Str) (sentIds : List Str) :
    Except Fault (List Relay) :=
  let new (type : ℤ) (level : ℕ) : Message :=
    Message.mkHgfrr msg.broadcastId messageId type level pm.node.id []
  match msg.type with
  | 0 =>
      let level := ulong (msg.fromLevel + 1)
      if !pm.nodeTable.isContactNode level then .ok [.up (new 1 level) level]
      else do
        let upper ← pm.nodeTable.getContactNodes (ulong (msg.fromLevel + 2))
        if upper.length = 0 then
          return .withinRing ((new 2 level).setNodeOrder 0) level sentIds ::
            pm.downwards msg messageId (List.range (msg.fromLevel + 1)).reverse
        else return [.up (new 0 level) level]
  | 1 =>
      if !pm.nodeTable.isContactNode msg.fromLevel then
        .ok [.up (new 1 msg.fromLevel) msg.fromLevel]
      else do
        let upper ← pm.nodeTable.getContactNodes (ulong (msg.fromLevel + 1))
        if upper.length = 0 then
          return .withinRing ((new 2 msg.fromLevel).setNodeOrder 0) msg.fromLevel sentIds ::
            pm.downwards msg messageId (List.range msg.fromLevel).reverse
        else return [.up (new 0 msg.fromLevel) msg.fromLevel]
  | 2 =>
      .ok (.withinRing ((new 2 msg.fromLevel).setNodeOrder msg.nodeOrder) msg.fromLevel
        sentIds :: pm.downwards msg messageId (List.range msg.fromLevel).reverse)
  | 5 =>
      .ok [.withinRing ((new 2 msg.fromLevel).setNodeOrder msg.nodeOrder) msg.fromLevel
        sentIds]
  | 3 =>
      if msg.fromLevel = 0 then .ok []
      else .ok [.withinRing (new 3 msg.fromLevel) (msg.fromLevel - 1) sentIds]
  | _ => .ok []

def runRelay (rand : ℕ) (data : Str) : Relay → Sends
  | .up msg currentLevel => pm.broadcastUp rand msg currentLevel data
  | .withinRing msg currentLevel sentIds =>
      pm.broadcastWithinRing msg currentLevel 2 data sentIds

/-- On receiving a message: the simulated delay, then the control flow. -/
def onReceive (rand : ℕ) (msg : Message) (data : Str) (sentIds : List Str) : Sends :=
  Emission.ofExcept (hopDelay msg.senderId pm.node.id) fun _ =>
    Emission.ofExcept (pm.controlFlow msg pm.nextMessageId sentIds) fun relays =>
      Emission.sequence (relays.map (pm.runRelay rand data))

/-- A node wants to broadcast: it asks one contact node of its own ring. -/
def broadcast (rand : ℕ) (data : Str) : PeerManager × Sends :=
  let broadcastId := pm.numbered 16 pm.broadcastedMsgs.length
  let msg := Message.mkHgfrr broadcastId pm.nextMessageId 1 0 pm.node.id []
  ({ pm with broadcastedMsgs := pm.broadcastedMsgs ++ [msg.messageId] },
    Emission.ofExcept (pm.nodeTable.getContactNodes 0) fun contactNodes =>
      Emission.ofExcept (randomNumInRange rand 0 ((contactNodes.length : ℤ) - 1)) fun randomId =>
        match contactNodes[randomId.toNat]? with
        | none => Emission.fail .undefinedBehaviour
        | some receiver =>
            Emission.emit ⟨receiver, msg.setReceiverId receiver.id, data, []⟩)

/-- Ask every contact node of a level. -/
def multicastToContactNodes (msg : Message) (currentLevel : ℕ) (data : Str) : Sends :=
  Emission.ofExcept (pm.nodeTable.getContactNodes currentLevel) fun contactNodes =>
    ⟨contactNodes.map fun receiver => ⟨receiver, msg.setReceiverId receiver.id, data, []⟩, none⟩

/-- Send the result of an election under a new broadcast id. What is noted is the
message id, which is empty. -/
def announceElection (level : ℕ) (act : PeerManager → Message → Sends) : PeerManager × Sends :=
  let msg := Message.mkHgfrr (pm.numbered 16 pm.broadcastedMsgs.length) [] 3 level pm.node.id []
  let pm' := { pm with broadcastedMsgs := pm.broadcastedMsgs ++ [msg.messageId] }
  (pm', act pm' msg)

/-- The messages about an election: to the ring, to the contact nodes above if there
are any, and to the ring below. -/
def electionSteps (level : ℕ) : List (PeerManager → PeerManager × Sends) :=
  let data := "Election Result".toList
  [fun pm => pm.announceElection level fun pm' msg => pm'.broadcastWithinRing msg level 2 data [],
    fun pm =>
      match pm.nodeTable.getContactNodes level with
      | .error fault => (pm, Emission.fail fault)
      | .ok contactNodes =>
          if contactNodes.length ≠ 0 then
            pm.announceElection level fun pm' msg =>
              pm'.multicastToContactNodes msg (ulong (level + 1)) data
          else (pm, Emission.done),
    fun pm => pm.announceElection level fun pm' msg =>
      if level ≠ 0 then pm'.broadcastWithinRing msg (level - 1) 2 data [] else Emission.done]

/-- Elect the contact nodes for the next period and send the result. Who was elected is
not part of the messages. -/
def contactNodeElection (draws : List ℕ) (level : ℕ) : PeerManager × Sends :=
  match pm.nodeTable.getPeerListSize level >>= fun numPeers =>
    drawContactNodes numPeers draws numContactNodes [] with
  | .error fault => (pm, Emission.fail fault)
  | .ok _ => Emission.sequenceOn (electionSteps level) pm

/-- The text of `sent_ids` on the wire. -/
def sentIdsString (sentIds : List Str) : Str :=
  (sentIds.flatMap fun sentId => sentId ++ [',']).dropLast

/-- The datagram of a message: sender id, receiver id, broadcast id, message id,
type, level, order, then the sent ids and the data. -/
def dataString (node : Node) (messageId : Str) (msg : Message) (data : Str) (sentIds : List Str) :
    Str :=
  pm.node.id ++ [','] ++ node.id ++ [','] ++ msg.broadcastId ++ [','] ++ messageId ++ [','] ++
    toString msg.type ++ [','] ++ toString msg.fromLevel ++ [','] ++ toString msg.nodeOrder ++
    [','] ++ sentIdsString sentIds ++ ['|'] ++ data

/-- Send a message, or hand it to oneself. The log file, to which the source appends a
record of what was sent, is left out. -/
def send (now : ℤ) (call : SendCall) : PeerManager × Dispatch :=
  if call.msg.receiverId = call.msg.senderId then
    (pm, .toSelf call.msg call.data call.sentIds)
  else
    let messageId := pm.nextMessageId
    ({ pm with
        msgTable := pm.msgTable.insertSent now (call.msg.setMessageId messageId) },
      .datagram call.receiver.ip call.receiver.port
        (pm.dataString call.receiver messageId call.msg call.data call.sentIds))

/-- `on_receive` with the calls of `send` that it makes, each of which calls `on_receive`
again for a message of the node to itself. The state counts how many random numbers have
been drawn and how often the clock was read. -/
def handler (rands : ℕ → ℕ) (clock : ℕ → ℤ) :
    Handler (PeerManager × ℕ) (Message × Str × List Str) SendCall Fault where
  handle state item :=
    ((state.1, state.2 + 1), state.1.onReceive (rands state.2) item.1 item.2.1 item.2.2)
  send state call :=
    match state.1.send (clock state.2) call with
    | (pm', .toSelf msg data sentIds) => ((pm', state.2), some (msg, data, sentIds))
    | (pm', .datagram _ _ _) => ((pm', state.2 + 1), none)

end PeerManager

/-! ## Parsing datagrams -/

/-- `pos_end + 1`, which is zero for `npos`. -/
def afterPos : Option ℕ → ℕ
  | none => 0
  | some posEnd => posEnd + 1

/-- The text from `pos_start` up to `pos_end`, to the end for `npos`. -/
def segment (data : Str) (posStart : ℕ) : Option ℕ → Except Fault Str
  | none => substrFrom data posStart
  | some posEnd => substr data posStart (posEnd - posStart)

/-- The next field of a datagram, and where it ends. -/
def readField (data : Str) (posEnd : Option ℕ) : Except Fault (Str × Option ℕ) := do
  let posStart := afterPos posEnd
  let next := find data ',' posStart
  let field ← segment data posStart next
  return (field, next)

/-- Collect the sent ids that end in a comma; what remains begins at the
position returned. -/
def readSentIds (text : Str) : (fuel posStart : ℕ) → List Str → Except Fault (ℕ × List Str)
  | 0, _, _ => .error .nonTermination
  | fuel + 1, posStart, sentIds =>
      match find text ',' posStart with
      | none => .ok (posStart, sentIds)
      | some posEnd => do
          let sentId ← substr text posStart (posEnd - posStart)
          readSentIds text fuel (posEnd + 1) (setInsert sentId sentIds)

/-- All sent ids. The last one is read unless it would begin at the last
position. -/
def parseSentIds (text : Str) : Except Fault (List Str) := do
  let (posStart, sentIds) ← readSentIds text (text.length + 1) 0 []
  if posStart + 1 ≠ text.length then
    let sentId ← substr text posStart (text.length - posStart)
    if sentId.length ≠ 0 then return setInsert sentId sentIds
  return sentIds

/-- The message, data and sent ids of a datagram. -/
def parseDatagram (data : Str) : Except Fault (Message × Str × List Str) := do
  let (senderId, posEnd) ← readField data none
  let (receiverId, posEnd) ← readField data posEnd
  let (broadcastId, posEnd) ← readField data posEnd
  let (messageId, posEnd) ← readField data posEnd
  let (messageType, posEnd) ← readField data posEnd
  let messageType ← stoi messageType
  let (messageFromLevel, posEnd) ← readField data posEnd
  let messageFromLevel ← stoi messageFromLevel
  let (dataNodeId, posEnd) ← readField data posEnd
  let dataNodeId ← stoi dataNodeId
  let dataInMsg ← substrFrom data (afterPos posEnd)
  let bar := find dataInMsg '|' 0
  let sentIdsString ← segment dataInMsg 0 bar
  let sentIds ← parseSentIds sentIdsString
  let msg := Message.mkHgfrr broadcastId messageId messageType (ulong messageFromLevel) senderId
    receiverId
  return (msg.setNodeOrder dataNodeId, dataInMsg.drop (afterPos bar), sentIds)

/-- On receiving a packet: parse it, note it in the message table, and enter the control
flow. The log file, to which the source appends a record, is left out. -/
def PeerManager.receive (pm : PeerManager) (now : ℤ) (rand : ℕ) (data : Str) :
    PeerManager × Sends :=
  match parseDatagram data with
  | .error fault => (pm, Emission.fail fault)
  | .ok (msg, dataInMsg, sentIds) =>
      let pm' := { pm with msgTable := pm.msgTable.insertReceived now msg }
      (pm', pm'.onReceive rand msg dataInMsg sentIds)

end Hgfrr
