import Hgfrr.Protocol.Network

/-!
# What handlers pass on

Whatever a handler sends before it ends or fails, it sends under the broadcast
id of the message it handles, with that message's data, and in its own name.
Sent ids that it adds are segments of ids that it knows.
-/

namespace Hgfrr

open Emission

/-- A part of an id that names a region. -/
def IsSegment (id segment : Str) : Prop :=
  ∃ level start length, levelToId level = .ok (start, length) ∧
    substr id start length = .ok segment

/-- The node itself, its peers and their contact nodes. -/
def PeerManager.Knows (pm : PeerManager) (node : Node) : Prop :=
  node = pm.node ∨ ∃ ring ∈ pm.nodeTable.tables,
    node ∈ ring.peerList ∨ node ∈ ring.contactNodes.map Prod.snd

/-- A call of `send` on behalf of a broadcast. -/
structure PassedOn (pm : PeerManager) (broadcastId data : Str) (sentIds : List Str)
    (call : SendCall) : Prop where
  broadcastId : call.msg.broadcastId = broadcastId
  data : call.data = data
  senderId : call.msg.senderId = pm.node.id
  receiverId : call.msg.receiverId = call.receiver.id
  receiver : pm.Knows call.receiver
  sentIds : ∀ sentId ∈ call.sentIds, sentId ∈ sentIds ∨
    ∃ node, pm.Knows node ∧ IsSegment node.id sentId

section Tables

variable {table : NodeTable} {level : ℕ}

theorem NodeTable.mem_of_ringAt {ring : Ring} (h : table.ringAt level = .ok ring) :
    ring ∈ table.tables := by
  unfold ringAt at h
  split at h
  next ring' hring =>
    obtain rfl : ring' = ring := Except.ok.inj h
    exact List.mem_of_getElem? hring
  next => cases h

theorem NodeTable.mem_of_getContactNodes {nodes : List Node}
    (h : table.getContactNodes level = .ok nodes) {node : Node} (hnode : node ∈ nodes) :
    ∃ ring ∈ table.tables, node ∈ ring.contactNodes.map Prod.snd := by
  unfold getContactNodes at h
  split at h
  next =>
    obtain rfl : [] = nodes := Except.ok.inj h
    simp at hnode
  next =>
    cases hring : table.ringAt level with
    | error => simp [hring, Except.map] at h
    | ok ring =>
        rw [hring] at h
        obtain rfl : ring.contactNodes.map Prod.snd = nodes := Except.ok.inj h
        exact ⟨ring, mem_of_ringAt hring, hnode⟩

theorem NodeTable.mem_of_getPeerByOrder {order : ℤ} {node : Node}
    (h : table.getPeerByOrder level order = .ok (some node)) :
    ∃ ring ∈ table.tables, node ∈ ring.peerList := by
  unfold getPeerByOrder at h
  split at h
  next => simp at h
  next =>
    obtain ⟨ring, hring, h⟩ := Except.bind_eq_ok.mp h
    by_cases horder : order < 0
    · rw [if_pos horder] at h
      cases h
    · rw [if_neg horder] at h
      split at h
      next node' hnode =>
        obtain rfl : node' = node := Option.some.inj (Except.ok.inj h)
        exact ⟨ring, mem_of_ringAt hring, List.mem_of_getElem? hnode⟩
      next => cases h

end Tables

section Handlers

variable {pm : PeerManager} {broadcastId data : Str} {sentIds : List Str} {call : SendCall}

theorem knows_receiverOf {level : ℕ} {step : RingStep} {node : Node}
    (h : pm.receiverOf level step = .ok node) : pm.Knows node := by
  unfold PeerManager.receiverOf at h
  obtain ⟨peer, hpeer, h⟩ := Except.bind_eq_ok.mp h
  cases peer with
  | none => cases h
  | some node' =>
      obtain rfl : node' = node := Except.ok.inj h
      obtain ⟨ring, hring, hmem⟩ := NodeTable.mem_of_getPeerByOrder hpeer
      exact Or.inr ⟨ring, hring, Or.inl hmem⟩

theorem passedOn_sendStep {msg : Message} {level : ℕ} {step : RingStep}
    (hsender : msg.senderId = pm.node.id)
    (h : pm.sendStep msg level data sentIds step = .ok call) :
    PassedOn pm msg.broadcastId data sentIds call := by
  unfold PeerManager.sendStep at h
  obtain ⟨receiver, hreceiver, h⟩ := Except.bind_eq_ok.mp h
  split at h <;> obtain ⟨idLower, _, h⟩ := Except.bind_eq_ok.mp h <;>
    obtain rfl := Except.ok.inj h <;>
    exact ⟨rfl, rfl, hsender, rfl, knows_receiverOf hreceiver, fun _ => Or.inl⟩

theorem passedOn_broadcastWithinRing {msg : Message} {level k : ℕ}
    (hsender : msg.senderId = pm.node.id)
    (h : call ∈ (pm.broadcastWithinRing msg level k data sentIds).emitted) :
    PassedOn pm msg.broadcastId data sentIds call := by
  unfold PeerManager.broadcastWithinRing at h
  obtain ⟨⟨steps, sentIdsForReceivers⟩, hprepared, h⟩ := mem_emitted_ofExcept h
  obtain ⟨routine, hroutine, h⟩ := mem_emitted_sequence h
  obtain ⟨step, _, rfl⟩ := List.mem_map.mp hroutine
  obtain ⟨call', hcall', h⟩ := mem_emitted_ofExcept h
  obtain rfl : call = call' := by simpa using h
  have hpassed := passedOn_sendStep hsender hcall'
  refine { hpassed with sentIds := fun sentId hmem => ?_ }
  -- where the sent ids for the receivers come from
  obtain ⟨endId, _, hprepared⟩ := Except.bind_eq_ok.mp hprepared
  obtain ⟨vectorId, _, hprepared⟩ := Except.bind_eq_ok.mp hprepared
  obtain ⟨⟨start, length⟩, hstart, hprepared⟩ := Except.bind_eq_ok.mp hprepared
  obtain ⟨thisId, hthis, hprepared⟩ := Except.bind_eq_ok.mp hprepared
  obtain ⟨steps', _, hprepared⟩ := Except.bind_eq_ok.mp hprepared
  obtain ⟨regionIds, hregions, hprepared⟩ := Except.bind_eq_ok.mp hprepared
  obtain ⟨rfl, rfl⟩ := Prod.mk.inj (Except.ok.inj hprepared)
  rcases hpassed.sentIds sentId hmem with hin | hsegment
  · rcases mem_foldl_setInsert.mp hin with hregion | hin
    · obtain ⟨step', _, hstep⟩ := Except.mapM_eq_ok hregions hregion
      obtain ⟨receiver, hreceiver, hsegment⟩ := Except.bind_eq_ok.mp hstep
      exact Or.inr ⟨receiver, knows_receiverOf hreceiver, level, start, length, hstart, hsegment⟩
    · rcases mem_setInsert.mp hin with rfl | hin
      · exact Or.inr ⟨pm.node, Or.inl rfl, level, start, length, hstart, hthis⟩
      · exact Or.inl hin
  · exact Or.inr hsegment

theorem passedOn_broadcastUp {msg : Message} {level rand : ℕ} (hsender : msg.senderId = pm.node.id)
    (h : call ∈ (pm.broadcastUp rand msg level data).emitted) :
    PassedOn pm msg.broadcastId data [] call := by
  unfold PeerManager.broadcastUp at h
  obtain ⟨contactNodes, hcontacts, h⟩ := mem_emitted_ofExcept h
  split at h
  next => exact passedOn_broadcastWithinRing hsender h
  next =>
    split at h
    next => simp at h
    next receiver hreceiver =>
      obtain rfl : call = _ := by simpa using h
      obtain ⟨ring, hring, hmem⟩ :=
        NodeTable.mem_of_getContactNodes hcontacts (List.mem_of_getElem? hreceiver)
      exact ⟨rfl, rfl, hsender, rfl, Or.inr ⟨ring, hring, Or.inr hmem⟩, by simp⟩

/-- Whatever a relay sends, it sends on behalf of the broadcast. -/
def Relay.For (pm : PeerManager) (broadcastId : Str) (sentIds : List Str) (relay : Relay) : Prop :=
  ∀ rand data call, call ∈ (pm.runRelay rand data relay).emitted →
    PassedOn pm broadcastId data sentIds call

theorem relay_for_up {msg : Message} {level : ℕ} (hsender : msg.senderId = pm.node.id) :
    Relay.For pm msg.broadcastId sentIds (.up msg level) := by
  intro rand data call h
  have hpassed := passedOn_broadcastUp hsender h
  refine { hpassed with sentIds := fun sentId hmem => ?_ }
  exact Or.inr ((hpassed.sentIds sentId hmem).resolve_left List.not_mem_nil)

theorem relay_for_withinRing {msg : Message} {level : ℕ} {own : List Str}
    (hsender : msg.senderId = pm.node.id) (hown : ∀ sentId ∈ own, sentId ∈ sentIds) :
    Relay.For pm msg.broadcastId sentIds (.withinRing msg level own) := by
  intro rand data call h
  have hpassed := passedOn_broadcastWithinRing hsender h
  refine { hpassed with sentIds := fun sentId hmem => ?_ }
  exact (hpassed.sentIds sentId hmem).imp_left (hown sentId)

theorem relay_for_downwards {msg : Message} {messageId : Str} {levels : List ℕ} :
    ∀ relay ∈ pm.downwards msg messageId levels, Relay.For pm msg.broadcastId sentIds relay := by
  intro relay hrelay
  obtain ⟨level, _, rfl⟩ := List.mem_map.mp hrelay
  exact relay_for_withinRing rfl (by simp)

/-- Every branch of `on_receive` passes on the broadcast it is about. -/
theorem relay_for_controlFlow {msg : Message} {messageId : Str} {relays : List Relay}
    (h : pm.controlFlow msg messageId sentIds = .ok relays) :
    ∀ relay ∈ relays, Relay.For pm msg.broadcastId sentIds relay := by
  have hup : ∀ type level, Relay.For pm msg.broadcastId sentIds
      (.up (Message.mkHgfrr msg.broadcastId messageId type level pm.node.id []) level) :=
    fun _ _ => relay_for_up rfl
  have hring : ∀ type level order, Relay.For pm msg.broadcastId sentIds (.withinRing
      ((Message.mkHgfrr msg.broadcastId messageId type level pm.node.id []).setNodeOrder order)
      level sentIds) := fun _ _ _ => relay_for_withinRing rfl fun _ => id
  unfold PeerManager.controlFlow at h
  dsimp only at h
  split at h
  · split at h
    next =>
      obtain rfl := Except.ok.inj h
      simpa using hup _ _
    next =>
      obtain ⟨upper, _, h⟩ := Except.bind_eq_ok.mp h
      split at h <;> obtain rfl := Except.ok.inj h
      · exact List.forall_mem_cons.mpr ⟨hring _ _ _, relay_for_downwards⟩
      · simpa using hup _ _
  · split at h
    next =>
      obtain rfl := Except.ok.inj h
      simpa using hup _ _
    next =>
      obtain ⟨upper, _, h⟩ := Except.bind_eq_ok.mp h
      split at h <;> obtain rfl := Except.ok.inj h
      · exact List.forall_mem_cons.mpr ⟨hring _ _ _, relay_for_downwards⟩
      · simpa using hup _ _
  · obtain rfl := Except.ok.inj h
    exact List.forall_mem_cons.mpr ⟨hring _ _ _, relay_for_downwards⟩
  · obtain rfl := Except.ok.inj h
    simpa using hring _ _ _
  · split at h <;> obtain rfl := Except.ok.inj h
    · simp
    · rw [List.forall_mem_singleton]
      exact relay_for_withinRing rfl fun _ => id
  · obtain rfl := Except.ok.inj h
    simp

theorem passedOn_onReceive {rand : ℕ} {msg : Message}
    (h : call ∈ (pm.onReceive rand msg data sentIds).emitted) :
    PassedOn pm msg.broadcastId data sentIds call := by
  obtain ⟨_, _, h⟩ := mem_emitted_ofExcept h
  obtain ⟨relays, hrelays, h⟩ := mem_emitted_ofExcept h
  obtain ⟨routine, hroutine, h⟩ := mem_emitted_sequence h
  obtain ⟨relay, hrelay, rfl⟩ := List.mem_map.mp hroutine
  exact relay_for_controlFlow hrelays relay hrelay rand data call h

/-- The first message of a broadcast carries a new broadcast id and the data. -/
theorem passedOn_broadcast {rand : ℕ} (h : call ∈ (pm.broadcast rand data).2.emitted) :
    PassedOn pm (pm.numbered 16 pm.broadcastedMsgs.length) data [] call := by
  obtain ⟨contactNodes, hcontacts, h⟩ := mem_emitted_ofExcept h
  obtain ⟨randomId, _, h⟩ := mem_emitted_ofExcept h
  split at h
  next => simp at h
  next receiver hreceiver =>
    obtain rfl : call = _ := by simpa using h
    obtain ⟨ring, hring, hmem⟩ :=
      NodeTable.mem_of_getContactNodes hcontacts (List.mem_of_getElem? hreceiver)
    exact ⟨rfl, rfl, rfl, rfl, Or.inr ⟨ring, hring, Or.inr hmem⟩, by simp⟩

end Handlers

/-- All messages of a run carry the broadcast id and the data of the first. -/
theorem Network.payload_of_reachable {net : Network} {call : SendCall}
    {cfg : Cascade.Config SendCall} (hrun : Cascade.Reachable net.React {call} cfg) :
    ∀ m ∈ cfg.handled, m.msg.broadcastId = call.msg.broadcastId ∧ m.data = call.data := by
  let good (m : SendCall) : Prop := m.msg.broadcastId = call.msg.broadcastId ∧ m.data = call.data
  have hstep : ∀ m outs, good m → net.React m outs → ∀ o ∈ outs, good o := by
    rintro m outs ⟨hbroadcast, hdata⟩ ⟨pm, rand, arrived, _, harrives, hreceive⟩ o ho
    have hemitted : o ∈ (pm.onReceive rand arrived.msg arrived.data arrived.sentIds).emitted := by
      rwa [hreceive]
    have hpassed := passedOn_onReceive hemitted
    exact ⟨hpassed.broadcastId.trans (harrives.broadcastId.trans hbroadcast),
      hpassed.data.trans (harrives.data.trans hdata)⟩
  have hall : (∀ m ∈ cfg.inFlight, good m) ∧ ∀ m ∈ cfg.handled, good m :=
    hrun.all_messages (by simp [good]) hstep
  exact hall.2

end Hgfrr
