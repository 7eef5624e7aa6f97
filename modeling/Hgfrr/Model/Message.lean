import Hgfrr.Model.NodeTable

/-!
# Messages and the message table
-/

namespace Hgfrr

structure Message where
  ioTimestamp : ℤ
  ioType : ℕ
  broadcastId : Str
  messageId : Str
  type : ℤ
  nodeOrder : ℤ
  ttl : ℤ
  fromLevel : ℕ
  senderId : Str
  receiverId : Str
deriving DecidableEq, Repr

namespace Message

def ioTypeReceived : ℕ := 0

def ioTypeSent : ℕ := 1

/-- The constructor used by the gossip protocol. -/
@[simps]
def mkEth (broadcastId messageId senderId receiverId : Str) : Message where
  ioTimestamp := 0
  ioType := 0
  broadcastId := broadcastId
  messageId := messageId
  type := 0
  nodeOrder := -1
  ttl := 0
  fromLevel := 0
  senderId := senderId
  receiverId := receiverId

/-- The constructor used by the ring protocol. -/
@[simps]
def mkHgfrr (broadcastId messageId : Str) (type : ℤ) (fromLevel : ℕ) (senderId receiverId : Str) :
    Message where
  ioTimestamp := 0
  ioType := 0
  broadcastId := broadcastId
  messageId := messageId
  type := type
  nodeOrder := -1
  ttl := 0
  fromLevel := fromLevel
  senderId := senderId
  receiverId := receiverId

@[simps]
def setNodeOrder (msg : Message) (order : ℤ) : Message := { msg with nodeOrder := order }

@[simps]
def setReceiverId (msg : Message) (receiverId : Str) : Message :=
  { msg with receiverId := receiverId }

@[simps]
def setType (msg : Message) (type : ℤ) : Message := { msg with type := type }

@[simps]
def setMessageId (msg : Message) (messageId : Str) : Message := { msg with messageId := messageId }

@[simps]
def setTTL (msg : Message) (ttl : ℤ) : Message := { msg with ttl := ttl }

def getKey (msg : Message) : ℤ := msg.ioTimestamp

/-- The messages that the peer managers make: a constructor, then setters. -/
inductive Constructed : Message → Prop
  | mkEth (broadcastId messageId senderId receiverId : Str) :
      Constructed (mkEth broadcastId messageId senderId receiverId)
  | mkHgfrr (broadcastId messageId : Str) (type : ℤ) (fromLevel : ℕ) (senderId receiverId : Str) :
      Constructed (mkHgfrr broadcastId messageId type fromLevel senderId receiverId)
  | setNodeOrder {msg : Message} (order : ℤ) (h : Constructed msg) :
      Constructed (msg.setNodeOrder order)
  | setReceiverId {msg : Message} (receiverId : Str) (h : Constructed msg) :
      Constructed (msg.setReceiverId receiverId)
  | setType {msg : Message} (type : ℤ) (h : Constructed msg) : Constructed (msg.setType type)
  | setMessageId {msg : Message} (messageId : Str) (h : Constructed msg) :
      Constructed (msg.setMessageId messageId)
  | setTTL {msg : Message} (ttl : ℤ) (h : Constructed msg) : Constructed (msg.setTTL ttl)

/-- No constructor and no setter gives a message a timestamp. -/
theorem Constructed.getKey_eq {msg : Message} (h : msg.Constructed) : msg.getKey = 0 := by
  induction h with
  | mkEth => rfl
  | mkHgfrr => rfl
  | setNodeOrder _ _ ih => exact ih
  | setReceiverId _ _ ih => exact ih
  | setType _ _ ih => exact ih
  | setMessageId _ _ ih => exact ih
  | setTTL _ _ ih => exact ih

/-- `s.c_str()` as a format argument ends at the first null character. -/
def cStr (s : Str) : Str := s.takeWhile (· != Char.ofNat 0)

/-- The record of a message. `sprintf` into a buffer of 1000 characters leaves
the behaviour of longer records undefined. -/
def toCsvString (msg : Message) : Except Fault Str :=
  let record := toString msg.ioTimestamp ++ [','] ++ toString msg.ioType ++ [','] ++
    cStr msg.senderId ++ [','] ++ cStr msg.broadcastId ++ [','] ++ cStr msg.messageId ++ [','] ++
    cStr msg.receiverId ++ [','] ++ toString msg.type ++ [','] ++ toString msg.fromLevel ++ [','] ++
    toString msg.nodeOrder
  if record.length < 1000 then .ok record else .error .undefinedBehaviour

def csvHeader : Str :=
  "io_timestamp,io_type,sender_id,broadcast_id,message_id,receiver_id,type,from_level,node_order".toList

end Message

/-- The log of messages, a map from the key a message had before it was
inserted. -/
structure MessageTable where
  table : List (ℤ × Message)
deriving DecidableEq, Repr

namespace MessageTable

def numMsgsInTotal (messages : MessageTable) : ℕ := messages.table.length

/-- `table[key] = msg`. -/
def set (messages : MessageTable) (key : ℤ) (msg : Message) : MessageTable where
  table := (key, msg) :: messages.table.filter fun entry => entry.1 != key

def insertReceived (messages : MessageTable) (now : ℤ) (msg : Message) : MessageTable :=
  messages.set msg.getKey { msg with ioTimestamp := now, ioType := Message.ioTypeReceived }

def insertSent (messages : MessageTable) (now : ℤ) (msg : Message) : MessageTable :=
  messages.set msg.getKey { msg with ioTimestamp := now, ioType := Message.ioTypeSent }

def existID (messages : MessageTable) (msgId : Str) : Bool :=
  messages.table.any fun entry => entry.2.messageId == msgId

/-- The header, then one line for each record. -/
def csvOf (records : List Message) : Except Fault Str := do
  let lines ← records.mapM Message.toCsvString
  return Message.csvHeader ++ lines.flatMap fun line => line ++ [Char.ofNat 10]

def toCsvString (messages : MessageTable) : Except Fault Str :=
  csvOf (messages.table.map Prod.snd)

end MessageTable

end Hgfrr
