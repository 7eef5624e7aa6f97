import Hgfrr.Foundation.Datagrams
import Hgfrr.Wire.RoundTrip

/-!
# Payload integrity of the ring protocol

The nodes of a network run over an unreliable transport. Every message they
handle carries the data that was broadcast under its broadcast id.
-/

namespace Hgfrr

open Datagrams

/-- What a peer manager does: `broadcast`, `send` with the handling of messages
to itself, and `receive`. -/
def hgfrrNodes : Behaviour PeerManager SendCall Str Str Str where
  originate pm payload outcome := ∃ rand,
    payload.1 = pm.numbered 16 pm.broadcastedMsgs.length ∧
      outcome = ⟨(pm.broadcast rand payload.2).1, (pm.broadcast rand payload.2).2.emitted, [], []⟩
  perform pm call outcome := ∃ now rand,
    outcome = match pm.send now call with
      | (pm', .toSelf msg data sentIds) =>
          ⟨pm', (pm'.onReceive rand msg data sentIds).emitted, [], [(msg.broadcastId, data)]⟩
      | (pm', .datagram _ _ text) => ⟨pm', [], [text], []⟩
  receive pm text outcome := ∃ now rand,
    outcome = ⟨(pm.receive now rand text).1, (pm.receive now rand text).2.emitted, [],
      match parseDatagram text with
      | .ok (msg, data, _) => [(msg.broadcastId, data)]
      | .error _ => []⟩

/-- Ids made of digits. -/
def IsNumeral (id : Str) : Prop := ∀ c ∈ id, c.isDigit

theorem IsNumeral.comma {id : Str} (h : IsNumeral id) : ',' ∉ id := fun hmem => by
  have := h _ hmem
  simp at this

theorem IsNumeral.bar {id : Str} (h : IsNumeral id) : '|' ∉ id := fun hmem => by
  have := h _ hmem
  simp at this

theorem isNumeral_setw (width n : ℕ) : IsNumeral (setw width n) := fun _ =>
  Decimal.isDigit_of_mem_padded

/-- Segments of ids are safe on the wire. -/
theorem wireSafe_of_isSegment {id segment : Str} (hid : IsNumeral id) (hlength : id.length = 32)
    (h : IsSegment id segment) : WireSafe segment := by
  obtain ⟨level, start, length, hlevel, hsubstr⟩ := h
  obtain ⟨hstart, hlen⟩ : start + length ≤ 32 ∧ 2 ≤ length := by
    unfold levelToId at hlevel
    split at hlevel <;> simp at hlevel <;> omega
  rw [substr_of_le (by omega)] at hsubstr
  obtain rfl := Except.ok.inj hsubstr
  have hsub : IsNumeral ((id.drop start).take length) := fun c hc =>
    hid c (List.mem_of_mem_drop (List.mem_of_mem_take hc))
  refine ⟨hsub.comma, hsub.bar, ?_⟩
  rw [List.length_take, List.length_drop]
  omega

section Ids

variable {net : Network} {id : Str} {pm : PeerManager}

theorem Network.Runs.knows_mem (hruns : net.Runs id pm) (hid : id ∈ net.ids) {node : Node}
    (h : pm.Knows node) : node.id ∈ net.ids := by
  rcases h with rfl | ⟨ring, hring, hpeer | hcontact⟩
  · exact hruns.1 ▸ hid
  · exact net.peers_mem id hid ring (hruns.2 ▸ hring) _ (List.mem_map_of_mem hpeer)
  · obtain ⟨entry, hentry, rfl⟩ := List.mem_map.mp hcontact
    exact net.contacts_mem id hid ring (hruns.2 ▸ hring) _
      (List.mem_map_of_mem (f := fun entry => entry.2.id) hentry)

end Ids

/-- A call of `send` that stands for a broadcast and can be read back. -/
structure SendCall.Carries (net : Network) (call : SendCall) (payload : Str × Str) : Prop where
  broadcastId : call.msg.broadcastId = payload.1
  data : call.data = payload.2
  comma : ',' ∉ payload.1
  receiver : call.receiver.id ∈ net.ids
  sentIds : ∀ sentId ∈ call.sentIds, WireSafe sentId

/-- A datagram that is read as a message of a broadcast, if it is read at all. -/
def Spells (text : Str) (payload : Str × Str) : Prop :=
  ',' ∉ payload.1 ∧ ∀ msg data sentIds, parseDatagram text = .ok (msg, data, sentIds) →
    msg.broadcastId = payload.1 ∧ data = payload.2 ∧ ∀ sentId ∈ sentIds, WireSafe sentId

section Steps

variable {net : Network} (hnumeral : ∀ id ∈ net.ids, IsNumeral id) {id : Str} {pm : PeerManager}
include hnumeral

theorem PassedOn.carries (hid : id ∈ net.ids) (hruns : net.Runs id pm) {payload : Str × Str}
    {sentIds : List Str} (hcomma : ',' ∉ payload.1) (hsafe : ∀ sentId ∈ sentIds, WireSafe sentId)
    {call : SendCall} (h : PassedOn pm payload.1 payload.2 sentIds call) :
    call.Carries net payload := by
  refine ⟨h.broadcastId, h.data, hcomma, hruns.knows_mem hid h.receiver, fun sentId hmem => ?_⟩
  rcases h.sentIds sentId hmem with hold | ⟨node, hknows, hsegment⟩
  · exact hsafe sentId hold
  · have hnode := hruns.knows_mem hid hknows
    exact wireSafe_of_isSegment (hnumeral _ hnode) (net.length_id _ hnode) hsegment

/-- The datagram of a call spells what the call carries. -/
theorem SendCall.Carries.spells (hid : id ∈ net.ids) (hruns : net.Runs id pm)
    {payload : Str × Str} {call : SendCall} (h : call.Carries net payload) :
    Spells (pm.dataString call.receiver pm.nextMessageId call.msg call.data call.sentIds)
      payload := by
  have hsender : ',' ∉ pm.node.id := hruns.1 ▸ (hnumeral id hid).comma
  obtain ⟨parsed, hmem, hparse⟩ := parseDatagram_dataString call.data hsender
    (hnumeral _ h.receiver).comma (h.broadcastId ▸ h.comma)
    (PeerManager.comma_not_mem_nextMessageId hsender) h.sentIds
  refine ⟨h.comma, fun msg data sentIds hok => ?_⟩
  rw [hparse] at hok
  obtain ⟨type, _, hok⟩ := Except.bind_eq_ok.mp hok
  obtain ⟨fromLevel, _, hok⟩ := Except.bind_eq_ok.mp hok
  obtain ⟨nodeOrder, _, hok⟩ := Except.bind_eq_ok.mp hok
  simp only [pure, Except.pure, Except.ok.injEq, Prod.mk.injEq] at hok
  obtain ⟨rfl, rfl, rfl⟩ := hok
  exact ⟨h.broadcastId, h.data, fun sentId hin => h.sentIds sentId ((hmem sentId).mp hin)⟩

end Steps

/-- The ring protocol passes on what it is asked to broadcast. -/
def hgfrrProvenance (net : Network) (hnumeral : ∀ id ∈ net.ids, IsNumeral id) :
    Provenance hgfrrNodes net.ids where
  Sound := net.Runs
  count pm := pm.broadcastedMsgs.length
  tag id n := id ++ setw 16 n
  tag_inj := by
    intro x hx y hy m n h
    obtain ⟨rfl, htail⟩ := List.append_inj h ((net.length_id x hx).trans (net.length_id y hy).symm)
    exact ⟨rfl, Decimal.padded_injective 16 htail⟩
  Carries call payload := call.Carries net payload
  Spells := Spells
  originate := by
    rintro id hid pm ⟨broadcastId, data⟩ outcome hruns ⟨rand, hbroadcast, rfl⟩
    have hid' : pm.node.id = id := hruns.1
    refine ⟨by rw [hbroadcast, PeerManager.numbered, hid'], hruns, ?_, fun call hcall => ?_,
      by simp, rfl⟩
    · simp [PeerManager.broadcast]
    · have hpassed := passedOn_broadcast hcall
      rw [← hbroadcast] at hpassed
      refine hpassed.carries hnumeral hid hruns ?_ (by simp)
      have hcomma : IsNumeral broadcastId := by
        rw [show broadcastId = id ++ setw 16 pm.broadcastedMsgs.length from hid' ▸ hbroadcast]
        exact List.forall_mem_append.mpr ⟨hnumeral id hid, isNumeral_setw 16 _⟩
      exact hcomma.comma
  perform := by
    rintro id hid pm call ⟨broadcastId, data⟩ outcome hruns hcarries ⟨now, rand, rfl⟩
    unfold PeerManager.send
    by_cases hself : call.msg.receiverId = call.msg.senderId
    · rw [if_pos hself]
      obtain ⟨rfl, rfl⟩ : call.msg.broadcastId = broadcastId ∧ call.data = data :=
        ⟨hcarries.broadcastId, hcarries.data⟩
      refine ⟨hruns, le_rfl, fun call' hcall' => ?_, by simp, by simp⟩
      exact (passedOn_onReceive hcall').carries hnumeral hid hruns hcarries.comma hcarries.sentIds
    · rw [if_neg hself]
      refine ⟨hruns, le_rfl, by simp, ?_, by simp⟩
      intro text htext
      obtain rfl := List.mem_singleton.mp htext
      exact hcarries.spells hnumeral hid hruns
  receive := by
    rintro id hid pm text ⟨broadcastId, data⟩ outcome hruns ⟨hcomma, hspells⟩ ⟨now, rand, rfl⟩
    cases hparse : parseDatagram text with
    | error fault =>
        simp only [PeerManager.receive, hparse]
        exact ⟨hruns, le_rfl, by simp, by simp, by simp⟩
    | ok parsed =>
        obtain ⟨msg, data', sentIds⟩ := parsed
        obtain ⟨rfl, rfl, hsafe⟩ := hspells msg data' sentIds hparse
        simp only [PeerManager.receive, hparse]
        refine ⟨hruns, le_rfl, fun call hcall => ?_, by simp, by simp⟩
        have hlogged : net.Runs id
            { pm with msgTable := pm.msgTable.insertReceived now msg } := hruns
        exact (passedOn_onReceive hcall).carries hnumeral hid hlogged hcomma hsafe

end Hgfrr
