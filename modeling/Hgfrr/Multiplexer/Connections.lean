import Hgfrr.Multiplexer.Dispatch
import Hgfrr.Multiplexer.Sessions

/-!
# Connections

From the protocols of one peer to those of the other: every packet that was sent is
received as the command of the protocol that it was sent as, in the order of sending.
-/

namespace Hgfrr.Multiplexing

open Effects

/-- A conversation of two peers. The packets that the protocols sent are recorded as
they were before their numbers were rewritten. -/
structure Connection extends Conversation where
  sent : List Packet

namespace Connection

inductive Event
  | sendPacket (packet : Packet)
  | send
  | deliver (size : ℕ)

/-- The sessions and the protocols of both sides. -/
def start (session other : RLPxSession) (protocols others : List ℕ) : Connection :=
  ⟨.start session other protocols others, []⟩

section Connections

variable [Rlp] [Aes] [Sha3]

/-- `Peer.send_packet`, as far as the multiplexer. -/
def sendPacket (peer : Peer) (c : Connection) (packet : Packet) : Connection :=
  match peer.sendPacket packet with
  | .error _ => c
  | .ok rewritten =>
      match outcome (MultiplexedSession.addPacket rewritten) c.sender with
      | (.ok _, _) => ⟨c.toConversation.add rewritten, c.sent ++ [packet]⟩
      | (.error _, _) => ⟨c.toConversation.add rewritten, c.sent⟩

def step (peer : Peer) (c : Connection) : Event → Connection
  | .sendPacket packet => c.sendPacket peer packet
  | .send => ⟨c.toConversation.send, c.sent⟩
  | .deliver size => ⟨c.toConversation.deliver size, c.sent⟩

omit [Rlp] [Aes] [Sha3] in
/-- The size of a packet fits its field. -/
def Allows : Event → Prop
  | .sendPacket packet => packet.payload.length + 2 < 2 ^ 32
  | .send => True
  | .deliver _ => True

inductive Reachable (session other : RLPxSession) (peer : Peer) (protocols others : List ℕ) :
    Connection → Prop
  | start : Reachable session other peer protocols others (start session other protocols others)
  | step {c : Connection} {event : Event} (h : Reachable session other peer protocols others c)
      (hallows : Allows event) : Reachable session other peer protocols others (c.step peer event)

variable {session other : RLPxSession} {peer receiver : Peer} {protocols others : List ℕ}
  {c : Connection}

omit [Rlp] [Aes] [Sha3] in
/-- A packet keeps its payload when its ids are rewritten. -/
theorem payload_of_sendPacket {packet rewritten : Packet}
    (h : peer.sendPacket packet = .ok rewritten) : rewritten.payload = packet.payload := by
  obtain ⟨-, -, -, -, -, rfl⟩ := Peer.sendPacket_eq_ok h
  split <;> rfl

/-- The packets of the conversation are those that were sent, with their numbers
rewritten. -/
def Rewrites (peer : Peer) (c : Connection) : Prop :=
  List.Forall₂ (fun packet rewritten => peer.sendPacket packet = .ok rewritten) c.sent c.added

/-- The packets of a conversation are those sent, rewritten. -/
theorem sendPacket_rewrites (h : c.Rewrites peer) (packet : Packet) :
    (c.sendPacket peer packet).Rewrites peer := by
  rw [sendPacket]
  split
  next => exact h
  next rewritten hsent =>
    rw [Conversation.add]
    rcases outcome (MultiplexedSession.addPacket rewritten) c.sender with ⟨e | u, sender⟩
    · exact h
    · exact List.rel_append h (.cons hsent .nil)

theorem sendPacket_reachable
    (h : Conversation.Reachable session other protocols others c.toConversation) {packet : Packet}
    (hlength : packet.payload.length + 2 < 2 ^ 32) :
    Conversation.Reachable session other protocols others
      (c.sendPacket peer packet).toConversation := by
  rw [sendPacket]
  split
  next => exact h
  next rewritten hsent =>
    have hallows : Conversation.Allows (.add rewritten) := by
      rw [Conversation.Allows, payload_of_sendPacket hsent]
      exact hlength
    have hadd := h.step hallows
    rcases outcome (MultiplexedSession.addPacket rewritten) c.sender with ⟨e | u, sender⟩ <;>
      exact hadd

theorem send_rewrites (h : c.Rewrites peer) : (c.step peer .send).Rewrites peer := by
  rw [step, Conversation.send]
  split <;> exact h

/-- The packets of a connection are a conversation of the sessions. -/
theorem Reachable.conversation (h : Reachable session other peer protocols others c) :
    Conversation.Reachable session other protocols others c.toConversation ∧
      c.Rewrites peer := by
  induction h with
  | start => exact ⟨.start, .nil⟩
  | @step c event _ hallows ih =>
      obtain ⟨hreachable, hrewrites⟩ := ih
      cases event with
      | sendPacket packet =>
          exact ⟨sendPacket_reachable hreachable hallows, sendPacket_rewrites hrewrites packet⟩
      | send =>
          have hsend : Conversation.Allows .send := trivial
          exact ⟨hreachable.step hsend, send_rewrites hrewrites⟩
      | deliver size =>
          have hdeliver : Conversation.Allows (.deliver size) := trivial
          exact ⟨hreachable.step hdeliver, hrewrites⟩

/-- The packet is one that the receiver gives to the protocol as the command that was
sent. -/
def ReceivedAs (receiver : Peer) (packet received : Packet) : Prop :=
  ∃ protocol ∈ receiver.protocols, packet.protocolId = protocol.protocolId ∧
    packet.payload = received.payload ∧
    receiver.handlePacket received = .received protocol { received with cmdId := packet.cmdId }

omit [Rlp] [Aes] [Sha3] in
/-- What was rewritten on one side is dispatched to the same protocol and command on the
other. -/
theorem receivedAs_of_sendPacket (hprotocols : receiver.protocols = peer.protocols)
    (hmode : receiver.offsetBasedDispatch = peer.offsetBasedDispatch)
    (hnodup : (peer.protocols.map Protocol.protocolId).Nodup)
    (hreserved : ∀ p ∈ peer.protocols, ∀ cmdId ∈ p.cmdIds, cmdId ≤ p.maxCmdId)
    (hshift : peer.offsetBasedDispatch → ∀ p ∈ peer.protocols, p.maxCmdId ≠ 0)
    {packet rewritten : Packet} (hsent : peer.sendPacket packet = .ok rewritten) :
    ReceivedAs receiver packet rewritten.plain := by
  obtain ⟨protocol, hmem, hid, hcmd, hiff⟩ :=
    Peer.protocolCmdIdFromPacket_iff hprotocols hmode hnodup hreserved hsent
  have hfound : receiver.protocolCmdIdFromPacket rewritten.plain = .ok (protocol, packet.cmdId) :=
    hiff.mpr fun h p hp => hshift h p ((List.takeWhile_sublist _).subset hp)
  exact ⟨protocol, hprotocols ▸ hmem, hid, (payload_of_sendPacket hsent).symm,
    Peer.handlePacket_eq_received_iff.mpr ⟨hfound, hcmd⟩⟩

omit [Rlp] [Aes] [Sha3] in
/-- The packets with a payload are rewritten one for one. -/
theorem Rewrites.filter (h : c.Rewrites peer) :
    List.Forall₂ (fun packet rewritten => peer.sendPacket packet = .ok rewritten)
      (c.sent.filter (·.payload ≠ [])) (c.added.filter (·.payload ≠ [])) := by
  -- only the numbers of a packet are rewritten
  refine List.rel_filter (fun packet rewritten hsent => ?_) h
  dsimp only
  rw [payload_of_sendPacket hsent]

/-- However the steps of the two peers interleave, the packets that the protocols sent
are received in their order, each as the command of the protocol that it was sent as.
Once all messages are sent and read, all packets with a payload are. -/
theorem commands_in_order (hprotocols : receiver.protocols = peer.protocols)
    (hmode : receiver.offsetBasedDispatch = peer.offsetBasedDispatch)
    (hnodup : (peer.protocols.map Protocol.protocolId).Nodup)
    (hreserved : ∀ p ∈ peer.protocols, ∀ cmdId ∈ p.cmdIds, cmdId ≤ p.maxCmdId)
    (hshift : peer.offsetBasedDispatch → ∀ p ∈ peer.protocols, p.maxCmdId ≠ 0)
    (hsession : session.SameHandshake other) (hsub : protocols ⊆ others)
    (h : Reachable session other peer protocols others c) :
    ∃ packets, packets <+: c.sent.filter (·.payload ≠ []) ∧
      List.Forall₂ (ReceivedAs receiver) packets c.receiver.packetQueue ∧
      (c.sender.messageQueue = [] → c.wire = [] → packets = c.sent.filter (·.payload ≠ [])) := by
  obtain ⟨hreachable, hrewrites⟩ := h.conversation
  obtain ⟨flight, opened, pending, arrived, hvalid⟩ := hreachable.valid hsession hsub
  have hfilter := hrewrites.filter
  have hlength := hfilter.length_eq
  refine ⟨(c.sent.filter (·.payload ≠ [])).take arrived.length, List.take_prefix _ _, ?_,
    fun hqueue hwire => ?_⟩
  -- what has arrived is the beginning of what was taken
  · rw [hvalid.passing.history] at hfilter
    rw [hvalid.passing.plain, List.forall₂_map_right_iff]
    exact (List.forall₂_take_append _ _ _ hfilter).imp fun packet rewritten =>
      receivedAs_of_sendPacket hprotocols hmode hnodup hreserved hshift
  · rw [hvalid.arrived_eq hqueue hwire, ← hlength, List.take_length]

/-! ## Sending all messages -/

theorem sendPacket_of_ok {packet rewritten : Packet}
    (hsent : peer.sendPacket packet = .ok rewritten)
    (hok : (outcome (MultiplexedSession.addPacket rewritten) c.sender).1 = .ok ()) :
    c.sendPacket peer packet = ⟨c.toConversation.add rewritten, c.sent ++ [packet]⟩ := by
  rw [sendPacket, hsent]
  rcases hout : outcome (MultiplexedSession.addPacket rewritten) c.sender with ⟨e | u, s'⟩
  · rw [hout] at hok
    exact absurd hok error_ne_ok
  · dsimp only
    rw [hout]

/-- Writing several messages. -/
theorem Reachable.sends (h : Reachable session other peer protocols others c) (n : ℕ) :
    Reachable session other peer protocols others
      ⟨Conversation.send^[n] c.toConversation, c.sent⟩ := by
  induction n generalizing c with
  | zero => exact h
  | succ n ih =>
      have hallows : Allows .send := trivial
      rw [Function.iterate_succ_apply]
      exact ih (h.step hallows)

end Connections

/-- Two protocols that are numbered one after the other. -/
def twoProtocols : Peer := ⟨[⟨0, 15, [2, 3]⟩, ⟨1, 7, [0, 4]⟩], true⟩

section Witness

attribute [local instance] shortRlp rijndaelAes keccakSha3

/-- A command of the second protocol, in two frames. -/
def large : Packet := ⟨1, 4, List.replicate 9000 7, false⟩

/-- What it is for the multiplexer, after the numbers of the first protocol. -/
def shifted : Packet := ⟨0, 20, List.replicate 9000 7, false⟩

def urgent : Packet := ⟨0, 2, [5], true⟩

def opening : Connection := start (sessionOf true) (sessionOf false) [0, 1] [0, 1]

def queued : Connection :=
  (opening.step twoProtocols (.sendPacket large)).step twoProtocols (.sendPacket urgent)

def written : Connection :=
  ⟨Conversation.send^[queued.sender.messageQueue.length] queued.toConversation, queued.sent⟩

/-- The first bytes of the first message are read. -/
def midway : Connection := written.step twoProtocols (.deliver 100)

/-- All messages are read. -/
def finished : Connection := midway.step twoProtocols (.deliver midway.wire.length)

theorem length_payload {packet : Packet} (h : packet.payload = List.replicate 9000 7) :
    packet.payload.length + 2 < 2 ^ 32 := by
  rw [h, List.length_replicate]
  norm_num

theorem sendPacket_second (payload : Bytes) :
    twoProtocols.sendPacket ⟨1, 4, payload, false⟩ = .ok ⟨0, 20, payload, false⟩ := rfl

theorem queued_reachable :
    Reachable (sessionOf true) (sessionOf false) twoProtocols [0, 1] [0, 1] queued ∧
      queued.sent = [large, urgent] := by
  have hlarge : Allows (.sendPacket large) := @length_payload large rfl
  have hurgent : Allows (.sendPacket urgent) := (by decide : [5].length + 2 < 2 ^ 32)
  have hsub : [0, 1] ⊆ [0, 1] := List.Subset.refl _
  have hstart : Reachable (sessionOf true) (sessionOf false) twoProtocols [0, 1] [0, 1] opening :=
    .start
  have hfirst := hstart.step hlarge
  obtain ⟨_, _, _, _, hvalid⟩ := hstart.conversation.1.valid sameHandshake_sessionOf hsub
  obtain ⟨_, _, _, _, hvalid'⟩ := hfirst.conversation.1.valid sameHandshake_sessionOf hsub
  have hsender : opening.sender.toSending = (Multiplexer.registered none [0, 1]).toSending := rfl
  have hlength : shifted.payload.length + 2 < 2 ^ 32 := @length_payload shifted rfl
  have hshifted : (outcome (Sending.addPacket shifted) opening.sender.toSending).1 = .ok () := by
    rw [hsender]
    decide +kernel
  obtain ⟨hok, -, hnext⟩ := Conversation.add_of_ok hvalid hlength hshifted
  have hstep : opening.step twoProtocols (.sendPacket large) =
      ⟨opening.toConversation.add shifted, [large]⟩ := by
    have hsent : twoProtocols.sendPacket large = .ok shifted := sendPacket_second large.payload
    rw [step, sendPacket_of_ok hsent hok]
    rfl
  rw [hsender] at hnext
  rw [hstep] at hvalid' hfirst
  dsimp only at hvalid'
  have hsending : (outcome (Sending.addPacket urgent)
      (opening.toConversation.add shifted).sender.toSending).1 = .ok () := by
    rw [hnext]
    decide +kernel
  have hadd := Conversation.add_of_ok hvalid' hurgent hsending
  rw [queued, hstep]
  refine ⟨hfirst.step hurgent, ?_⟩
  have hlast := sendPacket_of_ok (c := ⟨opening.toConversation.add shifted, [large]⟩)
    (by decide : twoProtocols.sendPacket urgent = .ok urgent) hadd.1
  rw [step, hlast]
  rfl

theorem finished_reachable :
    Reachable (sessionOf true) (sessionOf false) twoProtocols [0, 1] [0, 1] finished ∧
      finished.sender.messageQueue = [] ∧ finished.wire = [] ∧
      finished.sent = [large, urgent] := by
  obtain ⟨hqueued, hsame⟩ := queued_reachable
  have hwritten := hqueued.sends queued.sender.messageQueue.length
  obtain ⟨-, hqueue, -⟩ :=
    hqueued.conversation.1.sends (le_refl queued.sender.messageQueue.length)
  have hallows : ∀ size, Allows (.deliver size) := fun _ => trivial
  have hmidway : Reachable (sessionOf true) (sessionOf false) twoProtocols [0, 1] [0, 1] midway :=
    hwritten.step (hallows 100)
  have hfinished := hmidway.step (hallows midway.wire.length)
  refine ⟨hfinished, ?_, ?_, ?_⟩
  · simp only [finished, midway, written, step, Conversation.deliver_keeps, hqueue]
  · simp only [finished, step, Conversation.deliver_keeps, List.drop_length]
  · simp only [finished, midway, written, step, hsame]

/-- Commands of two protocols, the first in two frames with a cut in the first of them. -/
theorem commands_in_order_two :
    (∃ packets, packets <+: finished.sent.filter (·.payload ≠ []) ∧
      List.Forall₂ (ReceivedAs twoProtocols) packets finished.receiver.packetQueue ∧
      (finished.sender.messageQueue = [] → finished.wire = [] →
        packets = finished.sent.filter (·.payload ≠ []))) ∧
      List.Forall₂ (ReceivedAs twoProtocols) [large, urgent] finished.receiver.packetQueue := by
  obtain ⟨hreachable, hqueue, hwire, hsent⟩ := finished_reachable
  have hshift : twoProtocols.offsetBasedDispatch →
      ∀ p ∈ twoProtocols.protocols, p.maxCmdId ≠ 0 := fun _ => by decide
  have horder := commands_in_order rfl rfl (by decide) (by decide) hshift sameHandshake_sessionOf
    (List.Subset.refl [0, 1]) hreachable
  refine ⟨horder, ?_⟩
  obtain ⟨packets, -, hreceived, hall⟩ := horder
  have hlarge : large.payload ≠ [] := List.cons_ne_nil _ _
  have hurgent : urgent.payload ≠ [] := List.cons_ne_nil _ _
  have hpackets := hall hqueue hwire
  rw [hsent, List.filter_cons_of_pos (by exact decide_eq_true hlarge),
    List.filter_cons_of_pos (by exact decide_eq_true hurgent)] at hpackets
  exact hpackets ▸ hreceived

end Witness

end Connection

end Hgfrr.Multiplexing
