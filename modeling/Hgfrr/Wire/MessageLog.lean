import Hgfrr.Wire.Scanner

/-!
# The message log and message ids

The message table is keyed by the timestamp of the message as it is handed in,
which no constructor sets: every insertion replaces the one before. The table
therefore never holds more than one record, and message ids, which are made
from its size, repeat from the third one on.
-/

namespace Hgfrr

/-- A call of one of the insertion functions, with the clock's answer. -/
inductive LogCall
  | received (now : ℤ) (msg : Message)
  | sent (now : ℤ) (msg : Message)
deriving DecidableEq, Repr

namespace LogCall

/-- The message that is handed in. -/
def msg : LogCall → Message
  | received _ msg => msg
  | sent _ msg => msg

/-- The record that is made of it. -/
def record : LogCall → Message
  | received now msg => { msg with ioTimestamp := now, ioType := Message.ioTypeReceived }
  | sent now msg => { msg with ioTimestamp := now, ioType := Message.ioTypeSent }

@[simp] theorem record_messageId (call : LogCall) : call.record.messageId = call.msg.messageId := by
  cases call <;> rfl

end LogCall

namespace Message

/-- The line of a message fits the buffer, with the null character that ends it. -/
def FitsBuffer (msg : Message) : Prop :=
  ∃ line, msg.toCsvString = .ok line ∧ line.length + 1 ≤ 1000

end Message

/-- The characters that ids and numbers take up in a line. -/
def lineWidth (ids : List Str) (numbers : List ℤ) : ℕ :=
  (ids.map fun id => (Message.cStr id).length).sum + (numbers.map fun z => (toString z).length).sum

/-- What is left of the buffer beside the eight commas, the digit that tells sent messages
from received ones, and the null character. -/
theorem Message.fitsBuffer_iff {msg : Message} (hio : msg.ioType < 10) : msg.FitsBuffer ↔
    lineWidth [msg.senderId, msg.broadcastId, msg.messageId, msg.receiverId]
      [msg.ioTimestamp, msg.type, msg.fromLevel, msg.nodeOrder] ≤ 990 := by
  have hdigit : (toString (msg.ioType : ℤ)).length = 1 := by
    have hlength : (Nat.toDigits 10 msg.ioType).length ≤ 1 :=
      (Nat.length_toDigits_le_iff (by decide) (by decide)).mpr hio
    have hpos := List.length_pos_of_ne_nil (Nat.toDigits_ne_nil (b := 10) (n := msg.ioType))
    change (Nat.toDigits 10 msg.ioType).length = 1
    omega
  unfold FitsBuffer toCsvString
  dsimp only
  split
  next hfits =>
    refine iff_of_true ⟨_, rfl, by omega⟩ ?_
    simp only [List.length_append, List.length_singleton, hdigit] at hfits
    simp only [lineWidth, List.map_cons, List.map_nil, List.sum_cons, List.sum_nil]
    omega
  next hlong =>
    refine iff_of_false (fun h => nomatch h.choose_spec.1) ?_
    simp only [List.length_append, List.length_singleton, hdigit] at hlong
    simp only [lineWidth, List.map_cons, List.map_nil, List.sum_cons, List.sum_nil]
    omega

/-- What can be formatted fits. -/
theorem Message.length_lt_of_toCsvString {msg : Message} {line : Str}
    (h : msg.toCsvString = .ok line) : line.length + 1 ≤ 1000 := by
  unfold toCsvString at h
  dsimp only at h
  split at h
  next hfits => exact Except.ok.inj h ▸ hfits
  next => exact nomatch h

namespace LogCall

theorem ioType_record (call : LogCall) : call.record.ioType < 10 := by
  cases call with
  | received => exact (by decide : Message.ioTypeReceived < 10)
  | sent => exact (by decide : Message.ioTypeSent < 10)

/-- The characters that the ids and the numbers of the record take up. -/
def width (call : LogCall) : ℕ :=
  lineWidth [call.record.senderId, call.record.broadcastId, call.record.messageId,
    call.record.receiverId] [call.record.ioTimestamp, call.record.type, call.record.fromLevel,
    call.record.nodeOrder]

theorem fitsBuffer_iff (call : LogCall) : call.record.FitsBuffer ↔ call.width ≤ 990 :=
  Message.fitsBuffer_iff call.ioType_record

end LogCall

namespace MessageTable

def insert (messages : MessageTable) : LogCall → MessageTable
  | .received now msg => messages.insertReceived now msg
  | .sent now msg => messages.insertSent now msg

/-- The table after a sequence of calls. -/
def insertAll (calls : List LogCall) : MessageTable := calls.foldl insert ⟨[]⟩

theorem insert_eq (messages : MessageTable) (call : LogCall) :
    messages.insert call = messages.set call.msg.getKey call.record := by
  cases call <;> rfl

/-- All records are filed under the key zero. -/
def KeysZero (messages : MessageTable) : Prop := ∀ entry ∈ messages.table, entry.1 = 0

theorem keysZero_empty : KeysZero ⟨[]⟩ := fun _ h => absurd h List.not_mem_nil

theorem KeysZero.set {messages : MessageTable} (h : messages.KeysZero) {msg : Message}
    (hmsg : msg.getKey = 0) (record : Message) :
    messages.set msg.getKey record = ⟨[(0, record)]⟩ := by
  have hnone : messages.table.filter (fun entry => entry.1 != (0 : ℤ)) = [] := by
    refine List.filter_eq_nil_iff.mpr fun entry hentry => ?_
    simp [h entry hentry]
  rw [MessageTable.set, hmsg, hnone]

theorem KeysZero.insert {messages : MessageTable} (h : messages.KeysZero) {call : LogCall}
    (hcall : call.msg.Constructed) : messages.insert call = ⟨[(0, call.record)]⟩ := by
  rw [insert_eq, h.set hcall.getKey_eq]

theorem KeysZero.insertSent {messages : MessageTable} (h : messages.KeysZero) (now : ℤ)
    {msg : Message} (hmsg : msg.Constructed) :
    messages.insertSent now msg = ⟨[(0, (LogCall.sent now msg).record)]⟩ :=
  h.set hmsg.getKey_eq _

theorem KeysZero.insertReceived {messages : MessageTable} (h : messages.KeysZero) (now : ℤ)
    {msg : Message} (hmsg : msg.Constructed) :
    messages.insertReceived now msg = ⟨[(0, (LogCall.received now msg).record)]⟩ :=
  h.set hmsg.getKey_eq _

theorem keysZero_singleton (record : Message) : KeysZero ⟨[(0, record)]⟩ := by
  simp [KeysZero]

/-- Only the last call leaves a record. -/
theorem insertAll_concat (calls : List LogCall) (call : LogCall)
    (h : ∀ call' ∈ calls ++ [call], call'.msg.Constructed) :
    insertAll (calls ++ [call]) = ⟨[(0, call.record)]⟩ := by
  induction calls using List.reverseRecOn generalizing call with
  | nil => exact keysZero_empty.insert (h call (by simp))
  | append_singleton calls previous ih =>
      have hbefore := ih previous fun call' hcall' => h call' (List.mem_append_left _ hcall')
      rw [insertAll, List.foldl_append, ← insertAll, hbefore, List.foldl_cons, List.foldl_nil]
      exact (keysZero_singleton _).insert (h call (by simp))

/-- Nothing is lost: as many records as calls, found by the ids of the calls,
and a text with one line for each call. -/
structure Complete (messages : MessageTable) (calls : List LogCall) : Prop where
  count : messages.numMsgsInTotal = calls.length
  ids : ∀ msgId, messages.existID msgId = true ↔ ∃ call ∈ calls, call.msg.messageId = msgId
  csv : ∃ records text, List.Perm records (calls.map LogCall.record) ∧
    csvOf records = .ok text ∧ messages.toCsvString = .ok text

/-- The text of one record, if it fits the buffer. -/
theorem csvOf_singleton_iff (record : Message) :
    (∃ text, csvOf [record] = .ok text) ↔ record.FitsBuffer := by
  rw [csvOf, List.mapM_cons, List.mapM_nil]
  constructor
  · rintro ⟨text, htext⟩
    obtain ⟨lines, hlines, _⟩ := Except.bind_eq_ok.mp htext
    obtain ⟨line, hline, _⟩ := Except.bind_eq_ok.mp hlines
    exact ⟨line, hline, Message.length_lt_of_toCsvString hline⟩
  · rintro ⟨line, hline, _⟩
    rw [hline]
    exact ⟨_, rfl⟩

/-- The table keeps everything exactly as long as there is at most one call, and its
record fits. -/
theorem insertAll_complete_iff {calls : List LogCall}
    (hcalls : ∀ call ∈ calls, call.msg.Constructed) :
    (insertAll calls).Complete calls ↔
      calls.length ≤ 1 ∧ ∀ call ∈ calls, call.width ≤ 990 := by
  rcases List.eq_nil_or_concat' calls with rfl | ⟨before, call, rfl⟩
  · refine iff_of_true ⟨rfl, ?_, [], _, List.Perm.nil, rfl, rfl⟩
      ⟨Nat.zero_le _, List.forall_mem_nil _⟩
    simp [insertAll, existID]
  · rw [insertAll_concat before call hcalls]
    constructor
    · intro h
      have hlength : (before ++ [call]).length ≤ 1 := h.count.symm.le
      rw [List.length_append, List.length_singleton] at hlength
      obtain rfl : before = [] := List.eq_nil_of_length_eq_zero (by omega)
      obtain ⟨_, text, _, _, htext⟩ := h.csv
      refine ⟨le_rfl, List.forall_mem_singleton.mpr ?_⟩
      exact call.fitsBuffer_iff.mp ((csvOf_singleton_iff _).mp ⟨text, htext⟩)
    · rintro ⟨hlength, hwidth⟩
      rw [List.length_append, List.length_singleton] at hlength
      obtain rfl : before = [] := List.eq_nil_of_length_eq_zero (by omega)
      obtain ⟨text, htext⟩ := (csvOf_singleton_iff call.record).mpr
        (call.fitsBuffer_iff.mpr (hwidth call (by simp)))
      refine ⟨rfl, fun msgId => ?_, [call.record], text, by simp, htext, htext⟩
      simp [existID]

/-- A message that a node sends to the contact node of its district. -/
def oneCall : LogCall :=
  .sent 1700000000000 (Message.mkHgfrr (setw 48 7) (setw 56 3) 1 0 (setw 32 2) (setw 32 1))

theorem insertAll_complete_iff_instance : (insertAll [oneCall]).Complete [oneCall] := by
  have hcall : oneCall.msg.Constructed := .mkHgfrr _ _ _ _ _ _
  have hwidth : oneCall.width ≤ 990 := by decide +kernel
  exact (insertAll_complete_iff (List.forall_mem_singleton.mpr hcall)).mpr
    ⟨le_rfl, List.forall_mem_singleton.mpr hwidth⟩

/-- The second of two messages replaces the first. -/
theorem insertAll_loses_first :
    ¬ (insertAll [.sent 5 (Message.mkHgfrr "b".toList "m0".toList 1 0 "x".toList "y".toList),
        .received 6 (Message.mkHgfrr "b".toList "m1".toList 5 0 "y".toList "x".toList)]).Complete
      [.sent 5 (Message.mkHgfrr "b".toList "m0".toList 1 0 "x".toList "y".toList),
        .received 6 (Message.mkHgfrr "b".toList "m1".toList 5 0 "y".toList "x".toList)] := by
  intro h
  have hcount := h.count
  revert hcount
  decide

end MessageTable

/-! ## Message ids -/

/-- What an action of a node means for its message ids: it writes one into a
datagram, it only adds to the log, or neither. -/
inductive Mark
  | writes
  | logs
  | quiet
deriving DecidableEq, Repr

/-- The message ids written by a node whose log has a given size and never
grows beyond one record. -/
def idsWritten (id : Str) : (size : ℕ) → List Mark → List Str
  | _, [] => []
  | size, .writes :: marks => (id ++ setw 24 size) :: idsWritten id 1 marks
  | _, .logs :: marks => idsWritten id 1 marks
  | size, .quiet :: marks => idsWritten id size marks

/-- At most one message id is written, or two of which the first was written on
an empty log. -/
def FewWrites (marks : List Mark) : Prop :=
  marks.count .writes ≤ 1 ∨
    (marks.count .writes = 2 ∧ ∀ mark ∈ marks.takeWhile (· ≠ .writes), mark ≠ .logs)

section Marks

variable {id : Str} {marks : List Mark}

/-- Once something is logged, all ids are the same. -/
theorem idsWritten_one : idsWritten id 1 marks =
    List.replicate (marks.count .writes) (id ++ setw 24 1) := by
  induction marks with
  | nil => rfl
  | cons mark marks ih =>
      cases mark
      · rw [idsWritten, ih, List.count_cons_self, List.replicate_succ]
      · rw [idsWritten, ih, List.count_cons_of_ne (by decide)]
      · rw [idsWritten, ih, List.count_cons_of_ne (by decide)]

theorem idsWritten_nodup_iff : (idsWritten id 0 marks).Nodup ↔ FewWrites marks := by
  induction marks with
  | nil => simp [idsWritten, FewWrites]
  | cons mark marks ih =>
      cases mark with
      | writes =>
          have hne : id ++ setw 24 0 ≠ id ++ setw 24 1 := fun h =>
            absurd (Decimal.padded_injective 24 (List.append_cancel_left h)) (by decide)
          rw [idsWritten, idsWritten_one, List.nodup_cons, List.nodup_replicate, FewWrites,
            List.count_cons_self]
          simp [List.mem_replicate, hne]
          omega
      | logs =>
          rw [idsWritten, idsWritten_one, List.nodup_replicate, FewWrites,
            List.count_cons_of_ne (by decide)]
          simp
      | quiet =>
          rw [idsWritten, ih, FewWrites, FewWrites, List.count_cons_of_ne (by decide)]
          simp

end Marks

theorem constructed_of_parseDatagram {text data : Str} {msg : Message} {sentIds : List Str}
    (h : parseDatagram text = .ok (msg, data, sentIds)) : msg.Constructed := by
  obtain ⟨type, level, order, _, _, _, rfl⟩ := parseDatagram_fieldAt h
  exact .setNodeOrder _ (.mkHgfrr _ _ _ _ _ _)

namespace PeerManager

open MessageTable

/-- What one node does: broadcast, carry out a send, take in a datagram. -/
inductive Action
  | broadcast (rand : ℕ) (data : Str)
  | send (now : ℤ) (call : SendCall)
  | receive (now : ℤ) (rand : ℕ) (text : Str)

/-- The peer manager after an action, and the message id it has written. -/
def act (pm : PeerManager) : Action → PeerManager × List Str
  | .broadcast rand data => ((pm.broadcast rand data).1, [])
  | .send now call =>
      match pm.send now call with
      | (pm', .toSelf _ _ _) => (pm', [])
      | (pm', .datagram _ _ _) => (pm', [pm.nextMessageId])
  | .receive now rand text => ((pm.receive now rand text).1, [])

/-- The message id of a datagram is its fourth field. -/
theorem act_send_datagram {pm pm' : PeerManager} {now : ℤ} {call : SendCall} {ip text : Str}
    {port : ℕ} (hsent : pm.send now call = (pm', .datagram ip port text))
    (hsender : ',' ∉ pm.node.id) (hreceiver : ',' ∉ call.receiver.id)
    (hbroadcast : ',' ∉ call.msg.broadcastId) :
    pm.act (.send now call) = (pm', [fieldAt text 3]) := by
  simp only [act, hsent]
  unfold send at hsent
  split at hsent
  next => cases hsent
  next =>
    obtain ⟨-, hdatagram⟩ := Prod.mk.inj hsent
    obtain ⟨-, -, rfl⟩ := Dispatch.datagram.inj hdatagram
    simp only [dataString, List.append_assoc, List.cons_append, List.nil_append]
    rw [fieldAt_three hsender hreceiver hbroadcast (comma_not_mem_nextMessageId hsender)]

/-- All message ids that a sequence of actions writes. -/
def messageIds (pm : PeerManager) : List Action → List Str
  | [] => []
  | action :: actions => (pm.act action).2 ++ (pm.act action).1.messageIds actions

/-- Sent messages are made by the constructors. -/
def Action.Constructed : Action → Prop
  | .send _ call => call.msg.Constructed
  | _ => True

def Action.mark : Action → Mark
  | .broadcast _ _ => .quiet
  | .send _ call => if call.msg.receiverId = call.msg.senderId then .quiet else .writes
  | .receive _ _ text =>
      match parseDatagram text with
      | .ok _ => .logs
      | .error _ => .quiet

/-- The ids depend on the marks of the actions only. -/
theorem messageIds_eq {pm : PeerManager} (hkeys : pm.msgTable.KeysZero) {actions : List Action}
    (hactions : ∀ action ∈ actions, action.Constructed) :
    pm.messageIds actions =
      idsWritten pm.node.id pm.msgTable.numMsgsInTotal (actions.map Action.mark) := by
  induction actions generalizing pm with
  | nil => rfl
  | cons action actions ih =>
      obtain ⟨hfirst, hrest⟩ := List.forall_mem_cons.mp hactions
      rw [messageIds, List.map_cons]
      cases action with
      | broadcast rand data => exact ih hkeys hrest
      | send now call =>
          by_cases hself : call.msg.receiverId = call.msg.senderId
          · simp only [act, send, Action.mark, if_pos hself, idsWritten]
            exact ih hkeys hrest
          · have hlog := hkeys.insertSent now (.setMessageId pm.nextMessageId hfirst)
            simp only [act, send, Action.mark, if_neg hself, idsWritten, hlog]
            rw [ih (keysZero_singleton _) hrest]
            rfl
      | receive now rand text =>
          cases hparse : parseDatagram text with
          | error fault =>
              simp only [act, receive, Action.mark, hparse, idsWritten]
              exact ih hkeys hrest
          | ok parsed =>
              have hlog := hkeys.insertReceived now (constructed_of_parseDatagram hparse)
              simp only [act, receive, Action.mark, hparse, idsWritten, hlog]
              rw [ih (keysZero_singleton _) hrest]
              rfl

end PeerManager

namespace PeerManagerETH

open MessageTable

/-- What one gossip node does. -/
inductive Action
  | broadcast (draws : List ℕ) (data : Str) (ttl : ℤ) (broadcastId : Str)
  | send (now : ℤ) (call : SendCallETH)
  | receive (now : ℤ) (draws : List ℕ) (ip : Str) (port : ℕ) (text : Str)

/-- The peer manager after an action, and the message id it has written. -/
def act (hash : Str → ℕ) (pm : PeerManagerETH) : Action → PeerManagerETH × List Str
  | .broadcast draws data ttl broadcastId => ((pm.broadcast hash draws data ttl broadcastId).1, [])
  | .send now call => ((pm.send now call).1, [pm.nextMessageId])
  | .receive now draws ip port text => ((pm.receive hash now draws ip port text).1, [])

/-- The message id of a datagram is its fourth field. -/
theorem act_send_datagram (hash : Str → ℕ) {pm pm' : PeerManagerETH} {now : ℤ}
    {call : SendCallETH} {ip text : Str} {port : ℕ}
    (hsent : pm.send now call = (pm', ip, port, text)) (hsender : ',' ∉ pm.node.id)
    (hreceiver : ',' ∉ call.receiver.id) (hbroadcast : ',' ∉ call.msg.broadcastId) :
    pm.act hash (.send now call) = (pm', [fieldAt text 3]) := by
  simp only [act, hsent]
  unfold send at hsent
  obtain ⟨-, -, -, rfl⟩ := hsent
  simp only [dataString, List.append_assoc, List.cons_append, List.nil_append]
  rw [fieldAt_three hsender hreceiver hbroadcast (comma_not_mem_nextMessageId hsender)]

/-- All message ids that a sequence of actions writes. -/
def messageIds (hash : Str → ℕ) (pm : PeerManagerETH) : List Action → List Str
  | [] => []
  | action :: actions => (pm.act hash action).2 ++ (pm.act hash action).1.messageIds hash actions

/-- Sent messages are made by the constructors. -/
def Action.Constructed : Action → Prop
  | .send _ call => call.msg.Constructed
  | _ => True

def Action.mark (mode : GossipMode) : Action → Mark
  | .broadcast _ _ _ _ => .quiet
  | .send _ _ => .writes
  | .receive _ _ _ _ text =>
      match readDatagramETH mode text with
      | .ok (some _) => .logs
      | _ => .quiet

theorem constructed_of_readDatagramETH {mode : GossipMode} {text data : Str} {msg : Message}
    (h : readDatagramETH mode text = .ok (some (msg, data))) : msg.Constructed := by
  obtain ⟨datagram, _, h⟩ := Except.bind_eq_ok.mp h
  split at h
  next => cases h
  next =>
    obtain ⟨ttl, _, h⟩ := Except.bind_eq_ok.mp h
    obtain ⟨rfl, _⟩ := Prod.mk.inj (Option.some.inj (Except.ok.inj h))
    exact .setType _ (.setTTL _ (.mkEth _ _ _ _))

/-- The ids depend on the marks of the actions only. -/
theorem messageIds_eq (hash : Str → ℕ) {pm : PeerManagerETH} (hkeys : pm.msgTable.KeysZero)
    {actions : List Action} (hactions : ∀ action ∈ actions, action.Constructed) :
    pm.messageIds hash actions =
      idsWritten pm.node.id pm.msgTable.numMsgsInTotal (actions.map (Action.mark pm.mode)) := by
  induction actions generalizing pm with
  | nil => rfl
  | cons action actions ih =>
      obtain ⟨hfirst, hrest⟩ := List.forall_mem_cons.mp hactions
      rw [messageIds, List.map_cons]
      cases action with
      | broadcast draws data ttl broadcastId =>
          have hsame := pm.broadcast_sameNode hash draws data ttl broadcastId
          simp only [act, Action.mark, idsWritten, List.nil_append]
          rw [ih (hsame.msgTable ▸ hkeys) hrest, hsame.node, hsame.msgTable, hsame.mode]
      | send now call =>
          have hlog := hkeys.insertSent now (.setMessageId pm.nextMessageId hfirst)
          have hkeys' : (pm.send now call).1.msgTable.KeysZero := by
            simp only [send, nextMessageId] at hlog ⊢
            rw [hlog]
            exact keysZero_singleton _
          simp only [act, Action.mark, idsWritten]
          rw [ih hkeys' hrest]
          simp only [send, nextMessageId] at hlog ⊢
          rw [hlog]
          rfl
      | receive now draws ip port text =>
          cases hread : readDatagramETH pm.mode text with
          | error fault =>
              simp only [act, receive, Action.mark, hread, idsWritten]
              exact ih hkeys hrest
          | ok read =>
              cases read with
              | none =>
                  simp only [act, receive, Action.mark, hread, idsWritten]
                  exact ih hkeys hrest
              | some read =>
                  obtain ⟨msg, data⟩ := read
                  have hlog := hkeys.insertReceived now (constructed_of_readDatagramETH hread)
                  have hsame := PeerManagerETH.onReceive_sameNode
                    { pm with msgTable := pm.msgTable.insertReceived now msg } hash draws msg data
                    ip port
                  simp only [act, receive, Action.mark, hread, idsWritten, List.nil_append]
                  rw [ih (hsame.msgTable ▸ hlog ▸ keysZero_singleton _) hrest, hsame.node,
                    hsame.msgTable, hsame.mode, hlog]
                  rfl

end PeerManagerETH

/-- Message ids are distinct exactly when a node writes one message id at most,
or two of which the first was written before anything was logged. -/
theorem messageIds_nodup_iff (pm : PeerManager) (actions : List PeerManager.Action)
    (hempty : pm.msgTable = ⟨[]⟩) (hactions : ∀ action ∈ actions, action.Constructed)
    (hash : Str → ℕ) (pmETH : PeerManagerETH) (actionsETH : List PeerManagerETH.Action)
    (hemptyETH : pmETH.msgTable = ⟨[]⟩)
    (hactionsETH : ∀ action ∈ actionsETH, action.Constructed) :
    ((pm.messageIds actions).Nodup ↔ FewWrites (actions.map PeerManager.Action.mark)) ∧
    ((pmETH.messageIds hash actionsETH).Nodup ↔
      FewWrites (actionsETH.map (PeerManagerETH.Action.mark pmETH.mode))) := by
  constructor
  · rw [pm.messageIds_eq (hempty ▸ MessageTable.keysZero_empty) hactions, hempty]
    exact idsWritten_nodup_iff
  · rw [PeerManagerETH.messageIds_eq hash (hemptyETH ▸ MessageTable.keysZero_empty) hactionsETH,
      hemptyETH]
    exact idsWritten_nodup_iff

/-- A node before its first message, for either protocol. -/
def freshManager : PeerManager := ⟨⟨setw 32 1, [], 0⟩, ⟨setw 32 1, []⟩, ⟨[]⟩, []⟩

def freshManagerETH : PeerManagerETH := ⟨⟨setw 32 1, [], 0⟩, [], ⟨[]⟩, [], [], .push, []⟩

/-- A message to another node. -/
def loggedCall : SendCall where
  receiver := ⟨setw 32 2, [], 0⟩
  msg := Message.mkHgfrr (setw 48 0) [] 1 0 (setw 32 1) (setw 32 2)
  data := []
  sentIds := []

def loggedCallETH : SendCallETH :=
  ⟨⟨setw 32 2, [], 0⟩, Message.mkEth (setw 48 0) [] (setw 32 1) (setw 32 2), []⟩

theorem messageIds_nodup_iff_instance :
    ((freshManager.messageIds [.send 1 loggedCall, .send 2 loggedCall]).Nodup ↔
      FewWrites [.writes, .writes]) ∧
    ((freshManagerETH.messageIds List.length [.send 1 loggedCallETH]).Nodup ↔
      FewWrites [.writes]) := by
  refine messageIds_nodup_iff freshManager [.send 1 loggedCall, .send 2 loggedCall] rfl ?_
    List.length freshManagerETH [.send 1 loggedCallETH] rfl ?_
  · have hcall : loggedCall.msg.Constructed := .mkHgfrr _ _ _ _ _ _
    exact List.forall_mem_cons.mpr ⟨hcall, List.forall_mem_cons.mpr ⟨hcall, by simp⟩⟩
  · have hcall : loggedCallETH.msg.Constructed := .mkEth _ _ _ _
    exact List.forall_mem_cons.mpr ⟨hcall, by simp⟩

/-- The third message gets the id of the second. -/
theorem messageIds_repeat :
    ¬ (freshManager.messageIds [.send 1 loggedCall, .send 2 loggedCall, .send 3 loggedCall]).Nodup ∧
    ¬ (freshManagerETH.messageIds List.length
      [.send 1 loggedCallETH, .send 2 loggedCallETH, .send 3 loggedCallETH]).Nodup := by
  constructor <;> decide +kernel

end Hgfrr
