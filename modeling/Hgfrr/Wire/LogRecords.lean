import Hgfrr.Wire.MessageLog

/-!
# The width of a log record

A record is formatted into a buffer of a thousand characters. Its ids come from the
datagram or from the message as they are, so it fits as long as they and the numbers are
short enough to leave room for nine characters and the null character at the end.
-/

namespace Hgfrr

/-! ## The records that are logged -/

namespace PeerManager

/-- The record of a datagram that `receive` accepts. -/
def receivedRecord (now : ℤ) (text : Str) : Option Message :=
  match parseDatagram text with
  | .error _ => none
  | .ok (msg, _, _) => some (LogCall.received now msg).record

/-- The record of a call of `send`, unless the message is handed to the node itself. -/
def sentRecord (pm : PeerManager) (now : ℤ) (call : SendCall) : Option Message :=
  if call.msg.receiverId = call.msg.senderId then none
  else some (LogCall.sent now (call.msg.setMessageId pm.nextMessageId)).record

/-- The record of a datagram goes into the message table. -/
theorem msgTable_receive (pm : PeerManager) (now : ℤ) (rand : ℕ) (text : Str) :
    (pm.receive now rand text).1.msgTable =
      (receivedRecord now text).elim pm.msgTable (pm.msgTable.set 0) := by
  unfold receive receivedRecord
  cases hparse : parseDatagram text with
  | error fault => rfl
  | ok parsed =>
      have hkey := (constructed_of_parseDatagram hparse).getKey_eq
      change pm.msgTable.set parsed.1.getKey _ = _
      rw [hkey]
      rfl

theorem msgTable_send (pm : PeerManager) (now : ℤ) (call : SendCall) :
    (pm.send now call).1.msgTable =
      (pm.sentRecord now call).elim pm.msgTable (pm.msgTable.set call.msg.getKey) := by
  unfold send sentRecord
  split <;> rfl

/-- The record of an accepted datagram has the first four fields as ids. -/
theorem receivedRecord_fields {now : ℤ} {text : Str} {record : Message}
    (h : receivedRecord now text = some record) : ∃ type level order,
    stoi (fieldAt text 4) = .ok type ∧ stoi (fieldAt text 5) = .ok level ∧
      stoi (fieldAt text 6) = .ok order ∧ (record.FitsBuffer ↔
        lineWidth [fieldAt text 0, fieldAt text 2, fieldAt text 3, fieldAt text 1]
          [now, type, ulong level, order] ≤ 990) := by
  unfold receivedRecord at h
  split at h
  next => exact nomatch h
  next msg data sentIds hparse =>
    obtain rfl := Option.some.inj h
    obtain ⟨type, level, order, htype, hlevel, horder, rfl⟩ := parseDatagram_fieldAt hparse
    exact ⟨type, level, order, htype, hlevel, horder,
      Message.fitsBuffer_iff (LogCall.ioType_record _)⟩

theorem sentRecord_fields {pm : PeerManager} {now : ℤ} {call : SendCall} {record : Message}
    (h : pm.sentRecord now call = some record) : record.FitsBuffer ↔
      lineWidth [call.msg.senderId, call.msg.broadcastId, pm.nextMessageId, call.msg.receiverId]
        [now, call.msg.type, call.msg.fromLevel, call.msg.nodeOrder] ≤ 990 := by
  unfold sentRecord at h
  split at h
  next => exact nomatch h
  next =>
    obtain rfl := Option.some.inj h
    exact Message.fitsBuffer_iff (LogCall.ioType_record _)

end PeerManager

namespace PeerManagerETH

/-- The record of a datagram that `receive` accepts. -/
def receivedRecord (mode : GossipMode) (now : ℤ) (text : Str) : Option Message :=
  match readDatagramETH mode text with
  | .ok (some (msg, _)) => some (LogCall.received now msg).record
  | _ => none

/-- The record of a call of `send`. -/
def sentRecord (pm : PeerManagerETH) (now : ℤ) (call : SendCallETH) : Message :=
  (LogCall.sent now (call.msg.setMessageId pm.nextMessageId)).record

theorem msgTable_receive (pm : PeerManagerETH) (hash : Str → ℕ) (now : ℤ) (draws : List ℕ)
    (ip : Str) (port : ℕ) (text : Str) :
    (pm.receive hash now draws ip port text).1.msgTable =
      (receivedRecord pm.mode now text).elim pm.msgTable (pm.msgTable.set 0) := by
  unfold receive receivedRecord
  cases hread : readDatagramETH pm.mode text with
  | error fault => rfl
  | ok read =>
      cases read with
      | none => rfl
      | some read =>
          have hsame := onReceive_sameNode
            { pm with msgTable := pm.msgTable.insertReceived now read.1 } hash draws read.1 read.2
            ip port
          have hkey := (constructed_of_readDatagramETH hread).getKey_eq
          dsimp only
          rw [hsame.msgTable]
          change pm.msgTable.set read.1.getKey _ = _
          rw [hkey]
          rfl

theorem msgTable_send (pm : PeerManagerETH) (now : ℤ) (call : SendCallETH) :
    (pm.send now call).1.msgTable =
      pm.msgTable.set call.msg.getKey (pm.sentRecord now call) := rfl

/-- Gossip messages have no level and no order of their own. -/
theorem receivedRecord_fields {mode : GossipMode} {now : ℤ} {text : Str} {record : Message}
    (h : receivedRecord mode now text = some record) : ∃ type,
    stoi (fieldAt text 4) = .ok type ∧ (record.FitsBuffer ↔
      lineWidth [fieldAt text 0, fieldAt text 2, fieldAt text 3, fieldAt text 1]
        [now, type, 0, -1] ≤ 990) := by
  unfold receivedRecord at h
  split at h
  next msg data hread =>
    obtain rfl := Option.some.inj h
    obtain ⟨rest, hparse⟩ := parseDatagramETH_eq text
    obtain ⟨datagram, hdatagram, hread⟩ := Except.bind_eq_ok.mp hread
    rw [hparse] at hdatagram
    obtain ⟨type, htype, hdatagram⟩ := Except.bind_eq_ok.mp hdatagram
    obtain rfl := Except.ok.inj hdatagram
    split at hread
    next => exact nomatch hread
    next =>
      obtain ⟨ttl, _, hread⟩ := Except.bind_eq_ok.mp hread
      obtain ⟨rfl, _⟩ := Prod.mk.inj (Option.some.inj (Except.ok.inj hread))
      exact ⟨type, htype, Message.fitsBuffer_iff (LogCall.ioType_record _)⟩
  next => exact nomatch h

theorem sentRecord_fields (pm : PeerManagerETH) (now : ℤ) (call : SendCallETH) :
    (pm.sentRecord now call).FitsBuffer ↔
      lineWidth [call.msg.senderId, call.msg.broadcastId, pm.nextMessageId, call.msg.receiverId]
        [now, call.msg.type, call.msg.fromLevel, call.msg.nodeOrder] ≤ 990 :=
  Message.fitsBuffer_iff (LogCall.ioType_record _)

end PeerManagerETH

/-- Every datagram that is accepted and every message that is sent leaves a record, which
goes into the message table. The record fits its buffer exactly if its ids, each up to its
first null character, and its numbers take up 990 characters or fewer. -/
theorem logRecords_fit_iff (now : ℤ) :
    (∀ (pm : PeerManager) rand text record, PeerManager.receivedRecord now text = some record →
      (pm.receive now rand text).1.msgTable = pm.msgTable.set 0 record ∧
      ∃ type level order, stoi (fieldAt text 4) = .ok type ∧
        stoi (fieldAt text 5) = .ok level ∧ stoi (fieldAt text 6) = .ok order ∧
        (record.FitsBuffer ↔
          lineWidth [fieldAt text 0, fieldAt text 2, fieldAt text 3, fieldAt text 1]
            [now, type, ulong level, order] ≤ 990)) ∧
    (∀ (pm : PeerManager) call record, pm.sentRecord now call = some record →
      (pm.send now call).1.msgTable = pm.msgTable.set call.msg.getKey record ∧
      (record.FitsBuffer ↔
        lineWidth [call.msg.senderId, call.msg.broadcastId, pm.nextMessageId, call.msg.receiverId]
          [now, call.msg.type, call.msg.fromLevel, call.msg.nodeOrder] ≤ 990)) ∧
    (∀ (pm : PeerManagerETH) hash draws ip port text record,
      PeerManagerETH.receivedRecord pm.mode now text = some record →
      (pm.receive hash now draws ip port text).1.msgTable = pm.msgTable.set 0 record ∧
      ∃ type, stoi (fieldAt text 4) = .ok type ∧
        (record.FitsBuffer ↔
          lineWidth [fieldAt text 0, fieldAt text 2, fieldAt text 3, fieldAt text 1]
            [now, type, 0, -1] ≤ 990)) ∧
    ∀ (pm : PeerManagerETH) call,
      (pm.send now call).1.msgTable =
        pm.msgTable.set call.msg.getKey (pm.sentRecord now call) ∧
      ((pm.sentRecord now call).FitsBuffer ↔
        lineWidth [call.msg.senderId, call.msg.broadcastId, pm.nextMessageId, call.msg.receiverId]
          [now, call.msg.type, call.msg.fromLevel, call.msg.nodeOrder] ≤ 990) := by
  refine ⟨fun pm rand text record hrecord => ⟨?_, PeerManager.receivedRecord_fields hrecord⟩,
    fun pm call record hrecord => ⟨?_, PeerManager.sentRecord_fields hrecord⟩,
    fun pm hash draws ip port text record hrecord =>
      ⟨?_, PeerManagerETH.receivedRecord_fields hrecord⟩,
    fun pm call => ⟨pm.msgTable_send now call, pm.sentRecord_fields now call⟩⟩
  · rw [pm.msgTable_receive, hrecord]
    rfl
  · rw [pm.msgTable_send, hrecord]
    rfl
  · rw [pm.msgTable_receive, hrecord]
    rfl

/-- A datagram with a broadcast id of some length. -/
def longDatagram (n : ℕ) : Str :=
  ['A'] ++ ',' :: (['B'] ++ ',' :: (List.replicate n 'C' ++ ',' :: (['D'] ++ ',' ::
    (['5'] ++ ',' :: (['0'] ++ ',' :: (['0'] ++ ',' :: ([] ++ '|' :: [])))))))

def longRecord (n : ℕ) : Message :=
  (LogCall.received 1700000000000
    ((Message.mkHgfrr (List.replicate n 'C') ['D'] 5 0 ['A'] ['B']).setNodeOrder 0)).record

theorem receivedRecord_longDatagram (n : ℕ) :
    PeerManager.receivedRecord 1700000000000 (longDatagram n) = some (longRecord n) := by
  have hbroadcast : ',' ∉ List.replicate n 'C' := fun h =>
    absurd (List.eq_of_mem_replicate h) (by decide)
  have hparse := parseDatagram_fields (by decide : ',' ∉ ['A']) (by decide : ',' ∉ ['B'])
    hbroadcast (by decide : ',' ∉ ['D']) (by decide : ',' ∉ ['5'])
    (by decide : ',' ∉ ['0']) (by decide : ',' ∉ ['0']) (by decide : '|' ∉ ([] : Str)) []
  rw [PeerManager.receivedRecord, longDatagram, hparse]
  rfl

theorem le_lineWidth_longRecord (n : ℕ) :
    n ≤ lineWidth [(longRecord n).senderId, (longRecord n).broadcastId, (longRecord n).messageId,
        (longRecord n).receiverId] [(longRecord n).ioTimestamp, (longRecord n).type,
        (longRecord n).fromLevel, (longRecord n).nodeOrder] := by
  have hcut : (Message.cStr (longRecord n).broadcastId).length = n := by
    change (Message.cStr (List.replicate n 'C')).length = n
    rw [Message.cStr, List.takeWhile_replicate]
    exact List.length_replicate
  simp only [lineWidth, List.map_cons, List.sum_cons, hcut]
  omega

/-- The record of a datagram with a broadcast id of a thousand characters does not fit. -/
theorem logRecord_not_fits :
    PeerManager.receivedRecord 1700000000000 (longDatagram 1000) = some (longRecord 1000) ∧
      ¬(longRecord 1000).FitsBuffer := by
  refine ⟨receivedRecord_longDatagram 1000, fun hfits => ?_⟩
  have hwidth := (Message.fitsBuffer_iff (LogCall.ioType_record _)).mp hfits
  have hlong := le_lineWidth_longRecord 1000
  exact absurd (hlong.trans hwidth) (by decide)

/-- Without the long id the record of the same datagram fits. -/
theorem logRecords_fit_short : ∃ record,
    PeerManager.receivedRecord 1700000000000 "A,B,C,D,5,0,0,|".toList = some record ∧
      record.FitsBuffer := by
  have hrecord : (PeerManager.receivedRecord 1700000000000 "A,B,C,D,5,0,0,|".toList).isSome := by
    decide +kernel
  obtain ⟨record, hrecord⟩ := Option.isSome_iff_exists.mp hrecord
  obtain ⟨type, level, order, htype, hlevel, horder, hfits⟩ :=
    ((logRecords_fit_iff 1700000000000).1 freshManager 0 _ _ hrecord).2
  obtain rfl : type = 5 := Except.ok.inj (htype.symm.trans (by decide +kernel))
  obtain rfl : level = 0 := Except.ok.inj (hlevel.symm.trans (by decide +kernel))
  obtain rfl : order = 0 := Except.ok.inj (horder.symm.trans (by decide +kernel))
  exact ⟨record, hrecord, hfits.mpr (by decide +kernel)⟩

end Hgfrr
