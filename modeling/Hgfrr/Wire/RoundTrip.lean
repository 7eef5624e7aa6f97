import Hgfrr.Protocol.Payload
import Hgfrr.Wire.Scanner

/-!
# Datagrams and back

`send` joins the fields of a message with commas and puts a bar before the
data. `receive` takes the fields off the front again, one comma at a time, so
that neither commas nor bars in the data matter.
-/

namespace Hgfrr

section SentIds

variable {sentIds set : List Str}

@[simp] theorem sentIdsString_nil : PeerManager.sentIdsString [] = [] := rfl

@[simp] theorem sentIdsString_singleton (sentId : Str) :
    PeerManager.sentIdsString [sentId] = sentId := by
  simp [PeerManager.sentIdsString]

theorem sentIdsString_cons (sentId next : Str) (rest : List Str) :
    PeerManager.sentIdsString (sentId :: next :: rest) =
      sentId ++ ',' :: PeerManager.sentIdsString (next :: rest) := by
  have hne : (next :: rest).flatMap (fun sentId => sentId ++ [',']) ≠ [] := by simp
  rw [PeerManager.sentIdsString, List.flatMap_cons, List.dropLast_append_of_ne_nil hne,
    PeerManager.sentIdsString, List.append_assoc, List.singleton_append]

/-- All sent ids but the last end in a comma. -/
theorem readSentIds_eq (front : Str) {fuel : ℕ} (hne : sentIds ≠ [])
    (hcomma : ∀ sentId ∈ sentIds, ',' ∉ sentId) (hfuel : sentIds.length ≤ fuel) (set : List Str) :
    ∃ front' set', readSentIds (front ++ PeerManager.sentIdsString sentIds) fuel front.length set =
        .ok (front'.length, set') ∧
      front ++ PeerManager.sentIdsString sentIds = front' ++ sentIds.getLast hne ∧
      ∀ sentId, sentId ∈ set' ↔ sentId ∈ sentIds.dropLast ∨ sentId ∈ set := by
  induction sentIds generalizing front fuel set with
  | nil => exact absurd rfl hne
  | cons sentId rest ih =>
      obtain ⟨hsentId, hrest⟩ := List.forall_mem_cons.mp hcomma
      obtain ⟨fuel, rfl⟩ : ∃ fuel', fuel = fuel' + 1 := ⟨fuel - 1, by simp at hfuel; omega⟩
      cases rest with
      | nil =>
          refine ⟨front, set, ?_, by simp, by simp⟩
          simp [readSentIds, find_none hsentId]
      | cons next rest =>
          obtain ⟨front', set', hread, heq, hmem⟩ := ih (front ++ (sentId ++ [',']))
            (List.cons_ne_nil _ _) hrest (by simpa using hfuel) (setInsert sentId set)
          rw [sentIdsString_cons]
          refine ⟨front', set', ?_, ?_, ?_⟩
          · have hsubstr : substr (front ++ (sentId ++ ',' :: PeerManager.sentIdsString
                (next :: rest))) front.length sentId.length = .ok sentId := by
              rw [substr_of_le (by simp), List.drop_left, List.take_left]
            simp only [readSentIds, find_append _ _ hsentId, Nat.add_sub_cancel_left, hsubstr, bind,
              Except.bind]
            simpa [add_assoc] using hread
          · simpa using heq
          · intro s
            rw [hmem s, mem_setInsert, List.dropLast_cons_of_ne_nil (List.cons_ne_nil _ _),
              List.mem_cons]
            tauto

theorem length_le_sentIdsString (sentIds : List Str) :
    sentIds.length ≤ (PeerManager.sentIdsString sentIds).length + 1 := by
  have hflat : sentIds.length ≤ (sentIds.flatMap fun sentId => sentId ++ [',']).length := by
    induction sentIds with
    | nil => exact Nat.zero_le _
    | cons sentId rest ih =>
        simp only [List.flatMap_cons, List.length_append, List.length_cons, List.length_nil]
        omega
  rw [PeerManager.sentIdsString, List.length_dropLast]
  omega

/-- What comes back of a list of sent ids: a last one of a single character gets
lost. -/
theorem parseSentIds_append {front : List Str} {last : Str}
    (hcomma : ∀ sentId ∈ front ++ [last], ',' ∉ sentId) (hlast : last ≠ []) :
    ∃ parsed, parseSentIds (PeerManager.sentIdsString (front ++ [last])) = .ok parsed ∧
      ∀ sentId, sentId ∈ parsed ↔ sentId ∈ front ∨ (sentId = last ∧ last.length ≠ 1) := by
  have hne : front ++ [last] ≠ [] := by simp
  obtain ⟨front', set', hread, heq, hmem⟩ := readSentIds_eq [] hne hcomma
    (length_le_sentIdsString _) []
  rw [List.getLast_concat] at heq
  rw [List.dropLast_concat] at hmem
  rw [List.nil_append, List.length_nil] at hread
  rw [List.nil_append] at heq
  have hpos := List.length_pos_of_ne_nil hlast
  have hsubstr : substr (PeerManager.sentIdsString (front ++ [last])) front'.length
      ((PeerManager.sentIdsString (front ++ [last])).length - front'.length) = .ok last := by
    rw [heq, substr_of_le (by simp), List.drop_left]
    simp
  have hlength := congrArg List.length heq
  rw [List.length_append] at hlength
  by_cases hone : last.length = 1
  · refine ⟨set', ?_, fun sentId => by simp [hmem, hone]⟩
    simp only [parseSentIds, hread, bind, Except.bind]
    rw [if_neg (by omega)]
    rfl
  · refine ⟨setInsert last set', ?_, fun sentId => by simp [hmem, hone, or_comm]⟩
    simp only [parseSentIds, hread, bind, Except.bind, hsubstr]
    rw [if_pos (by omega), if_pos (by omega)]
    rfl

/-- The sent ids come back as the same set. -/
theorem parseSentIds_eq (hcomma : ∀ sentId ∈ sentIds, ',' ∉ sentId)
    (hlength : ∀ sentId ∈ sentIds, 2 ≤ sentId.length) :
    ∃ parsed, parseSentIds (PeerManager.sentIdsString sentIds) = .ok parsed ∧
      ∀ sentId, sentId ∈ parsed ↔ sentId ∈ sentIds := by
  rcases List.eq_nil_or_concat' sentIds with rfl | ⟨front, last, rfl⟩
  · exact ⟨[], rfl, fun _ => Iff.rfl⟩
  · have hlast : 2 ≤ last.length := hlength last (by simp)
    obtain ⟨parsed, hparsed, hmem⟩ := parseSentIds_append hcomma
      (List.ne_nil_of_length_pos (by omega))
    refine ⟨parsed, hparsed, fun sentId => ?_⟩
    rw [hmem, List.mem_append, List.mem_singleton, and_iff_left (by omega)]

end SentIds

/-- Texts that stand between commas and before the bar. -/
structure WireSafe (sentId : Str) : Prop where
  comma : ',' ∉ sentId
  bar : '|' ∉ sentId
  length : 2 ≤ sentId.length

section Datagrams

variable {pm : PeerManager} {receiver : Node} {messageId : Str} {msg : Message}
  {sentIds : List Str}

theorem comma_not_mem_toString (z : ℤ) : ',' ∉ toString z := fun h => by
  rcases Decimal.mem_ofInt h with heq | hdigit
  · simp at heq
  · simp at hdigit

theorem bar_not_mem_sentIdsString (h : ∀ sentId ∈ sentIds, '|' ∉ sentId) :
    '|' ∉ PeerManager.sentIdsString sentIds := by
  intro hbar
  obtain ⟨sentId, hsentId, hmem⟩ := List.mem_flatMap.mp (List.mem_of_mem_dropLast hbar)
  rcases List.mem_append.mp hmem with hmem | hmem
  · exact h sentId hsentId hmem
  · simp at hmem

/-- Parsing takes a datagram apart into the fields it was made of. Only reading
the numbers may fail. -/
theorem parseDatagram_dataString (data : Str) (hsender : ',' ∉ pm.node.id)
    (hreceiver : ',' ∉ receiver.id)
    (hbroadcast : ',' ∉ msg.broadcastId) (hmessage : ',' ∉ messageId)
    (hsentIds : ∀ sentId ∈ sentIds, WireSafe sentId) :
    ∃ parsed, (∀ sentId, sentId ∈ parsed ↔ sentId ∈ sentIds) ∧
      parseDatagram (pm.dataString receiver messageId msg data sentIds) = do
        let type ← stoi (toString msg.type)
        let fromLevel ← stoi (toString msg.fromLevel)
        let nodeOrder ← stoi (toString msg.nodeOrder)
        return ((Message.mkHgfrr msg.broadcastId messageId type (ulong fromLevel) pm.node.id
          receiver.id).setNodeOrder nodeOrder, data, parsed) := by
  obtain ⟨parsed, hparsed, hmem⟩ := parseSentIds_eq (fun sentId h => (hsentIds sentId h).comma)
    fun sentId h => (hsentIds sentId h).length
  refine ⟨parsed, hmem, ?_⟩
  have htext : pm.dataString receiver messageId msg data sentIds =
      pm.node.id ++ ',' :: (receiver.id ++ ',' :: (msg.broadcastId ++ ',' :: (messageId ++ ',' ::
        (toString msg.type ++ ',' :: (toString msg.fromLevel ++ ',' :: (toString msg.nodeOrder ++
          ',' :: (PeerManager.sentIdsString sentIds ++ '|' :: data))))))) := by
    simp [PeerManager.dataString]
  rw [htext, parseDatagram_fields hsender hreceiver hbroadcast hmessage
    (comma_not_mem_toString msg.type) (comma_not_mem_toString msg.fromLevel)
    (comma_not_mem_toString msg.nodeOrder)
    (bar_not_mem_sentIdsString fun sentId h => (hsentIds sentId h).bar) data, hparsed]
  rfl

end Datagrams

/-- The message that arrives when `pm` has sent `call`. -/
def SendCall.arriving (pm : PeerManager) (call : SendCall) : Message :=
  (Message.mkHgfrr call.msg.broadcastId pm.nextMessageId call.msg.type call.msg.fromLevel pm.node.id
    call.receiver.id).setNodeOrder call.msg.nodeOrder

/-- Round trip: whoever receives the datagram of a call of `send` handles the
ids, type, level, order, sent ids and data of that call, under a new message
id. -/
theorem receive_send {pm : PeerManager} {call : SendCall} (hsender : ',' ∉ pm.node.id)
    (hreceiver : ',' ∉ call.receiver.id) (hbroadcast : ',' ∉ call.msg.broadcastId)
    (htype : FitsInt call.msg.type) (hlevel : FitsInt call.msg.fromLevel)
    (horder : FitsInt call.msg.nodeOrder) (hsentIds : ∀ sentId ∈ call.sentIds, WireSafe sentId)
    (hother : call.msg.receiverId ≠ call.msg.senderId) (now : ℤ) :
    ∃ pm' text parsed, pm.send now call =
        (pm', .datagram call.receiver.ip call.receiver.port text) ∧
      (∀ sentId, sentId ∈ parsed ↔ sentId ∈ call.sentIds) ∧
      ∀ (receiver : PeerManager) (now' : ℤ) (rand : ℕ),
        let logged := { receiver with
          msgTable := receiver.msgTable.insertReceived now' (call.arriving pm) }
        receiver.receive now' rand text =
          (logged, logged.onReceive rand (call.arriving pm) call.data parsed) := by
  obtain ⟨parsed, hmem, hparse⟩ := parseDatagram_dataString call.data hsender hreceiver
    hbroadcast (PeerManager.comma_not_mem_nextMessageId hsender) hsentIds
  have hulong : ulong (call.msg.fromLevel : ℤ) = call.msg.fromLevel := by
    refine ulong_of_lt ?_
    have := hlevel.2
    omega
  rw [stoi_toString htype, stoi_toString hlevel, stoi_toString horder] at hparse
  simp only [bind, Except.bind, hulong] at hparse
  refine ⟨_, _, parsed, by rw [PeerManager.send, if_neg hother], hmem, fun receiver now' rand => ?_⟩
  rw [PeerManager.receive, hparse]
  rfl

/-- For instance a payload with commas and a bar, and a negative order. -/
theorem receive_send_instance :
    ∃ pm' text parsed, (pairManager 0).send 7 ⟨districtNode 1,
          ⟨0, 0, firstRegionId 0 ++ setw 16 0, [], 2, -1, 0, 1, firstRegionId 0, firstRegionId 1⟩,
          "a,b|c".toList, ["00000".toList, "00001".toList]⟩ =
        (pm', .datagram "127.0.0.1".toList 5001 text) ∧
      (∀ sentId, sentId ∈ parsed ↔ sentId ∈ ["00000".toList, "00001".toList]) ∧
      ∀ (receiver : PeerManager) (now' : ℤ) (rand : ℕ),
        let logged := { receiver with
          msgTable := receiver.msgTable.insertReceived now' ⟨0, 0, firstRegionId 0 ++ setw 16 0,
            firstRegionId 0 ++ setw 24 0, 2, -1, 0, 1, firstRegionId 0, firstRegionId 1⟩ }
        receiver.receive now' rand text = (logged, logged.onReceive rand
          ⟨0, 0, firstRegionId 0 ++ setw 16 0, firstRegionId 0 ++ setw 24 0, 2, -1, 0, 1,
            firstRegionId 0, firstRegionId 1⟩ "a,b|c".toList parsed) := by
  refine receive_send (by decide) (by decide) (by decide) (by decide) (by decide) (by decide) ?_
    (by decide) 7
  intro sentId h
  rcases List.mem_pair.mp h with rfl | rfl <;> exact ⟨by decide, by decide, by decide⟩

end Hgfrr
