import Hgfrr.Model.MuxSession
import Hgfrr.Multiplexer.Interleavings

/-!
# Sessions

A session pops the frames of a packet before the next is added. So there is one order
of all packets, and they come out in it, however often the sequence ids are reused. All
frames are encrypted, and the receiver decrypts them in the same order.
-/

namespace Hgfrr.Multiplexing

open Effects Lanes Sending

/-! ## Sending -/

namespace Sending

variable {s : Sending} {active : List ℕ} {n : ℕ}

variable [Rlp]

theorem Ready.flows (h : s.Ready) : s.Flows [] :=
  ⟨List.nodup_nil, fun p => iff_of_false List.not_mem_nil (h.idle p), trivial⟩

/-- A packet that is taken is popped as it was framed, and the queues are empty
again. -/
theorem Ready.add (h : s.Ready) (packet : Packet) :
    match outcome (addPacket packet) s with
    | (.error _, s') => s'.Ready ∧ s'.protocols = s.protocols
    | (.ok _, s') => ∃ sid frames s'', packet.protocolId ∈ s.protocols ∧
        s.Accepts packet sid ∧ Carries packet sid frames ∧
        (∀ f ∈ frames, f.frameSize ≤ s.protocolWindowSize packet.protocolId) ∧
        outcome popAllFrames s' = (.ok frames, s'') ∧ s''.Ready ∧
        s''.protocols = s.protocols := by
  have hnum : s.numActiveProtocols = 0 := h.flows.numActiveProtocols h.rotates.nodup
  have hdivides : (Event.add packet).Divides s := fun _ => Or.inr hnum
  obtain ⟨active, hflows⟩ := h.flows.add h.rotates hdivides
  have hrotates := h.rotates.step (.add packet)
  have hprotocols := protocols_step h.rotates (.add packet)
  have hadds := addPacket_adds s packet
  rw [Sending.step] at hflows hrotates hprotocols
  generalize outcome (addPacket packet) s = r at hadds hflows hrotates hprotocols
  cases hadds with
  | unknown => exact ⟨h, rfl⟩
  | refused => exact ⟨⟨hrotates, h.idle⟩, rfl⟩
  | @added sid queues frames name hsid hqueues haccepts hframes hname =>
      obtain ⟨hcarries, hsize, -⟩ := frames_packetFrame hframes
      have hmem := AssocMap.mem_map_fst_of_lookup hqueues
      have hne : s.protocols ≠ [] := List.ne_nil_of_mem hmem
      rw [← hprotocols] at hne
      obtain ⟨taken, s'', hout, hready, hsame, hwaiting⟩ :=
        hflows.popAllWithin_waiting hrotates hne (Nat.lt_succ_self _)
      -- nothing waited before, so all that waits is in the queue of the packet
      have htaken : taken.map Prod.snd = frames := by
        rw [map_snd_eq_lane (packet.protocolId, name), ← hwaiting,
          waiting_put_self hqueues, waiting_eq_nil (h.idle _), List.nil_append]
        intro other hother
        rw [← hwaiting, waiting_put_of_ne hqueues hother, waiting_eq_nil (h.idle _)]
      rw [htaken] at hout
      exact ⟨sid, frames, s'', hmem, haccepts, hcarries, hsize, hout, hready,
        hsame.trans hprotocols⟩

end Sending

section Sessions

variable [Rlp]

namespace MultiplexedSession

variable [Aes] [Sha3]

/-- Every frame becomes one message. -/
theorem outcome_putMessages {s : MultiplexedSession} {items : List (Frame × Bytes)}
    {cipher : Option FrameCipher} (h : Written s.egress items cipher) :
    outcome (putMessages (items.map Prod.fst)) s =
      (.ok (), { s with
        egress := cipher
        messageQueue := s.messageQueue ++ items.map Prod.snd }) := by
  generalize hegress : s.egress = before at h
  induction h generalizing s with
  | nil =>
      subst hegress
      rw [List.map_nil, List.map_nil, List.append_nil]
      rfl
  | cons hf _ ih =>
      subst hegress
      rw [List.map_cons, putMessages, outcome_bind, multiplexer, outcome_onPart,
        Multiplexer.writing, outcome_onPart, hf.outcome_asBytes]
      dsimp only
      rw [outcome_bind, outcome_modify]
      dsimp only
      rw [ih rfl, List.map_cons, List.append_assoc]
      rfl

/-- A packet that is taken becomes the next messages. -/
theorem addPacket_messages {s : MultiplexedSession} (h : s.Ready) (hegress : s.egress.isSome)
    {packet : Packet} (hlength : packet.payload.length + 2 < 2 ^ 32) :
    match outcome (addPacket packet) s with
    | (.error e, s') => outcome (Sending.addPacket packet) s.toSending = (.error e, s'.toSending) ∧
        s'.Ready ∧ s'.protocols = s.protocols ∧ s'.egress = s.egress ∧
        s'.messageQueue = s.messageQueue
    | (.ok _, s') => ∃ (x : Sealed) (items : List (Frame × Bytes)), x.packet = packet ∧
        packet.protocolId ∈ s.protocols ∧ Carries packet x.sid x.frames ∧
        (∀ f ∈ x.frames, f.Sendable x.sid) ∧ items.map Prod.fst = x.frames ∧
        Written s.egress items s'.egress ∧
        outcome popAllFrames (outcome (Sending.addPacket packet) s.toSending).2 =
          (.ok x.frames, s'.toSending) ∧
        s'.Ready ∧ s'.protocols = s.protocols ∧
        s'.messageQueue = s.messageQueue ++ items.map Prod.snd := by
  have hadd := h.add packet
  rw [addPacket, outcome_bind, outcome_get]
  dsimp only
  rw [outcome_bind, outcome_ofExcept, require, if_pos hegress]
  dsimp only
  rw [outcome_bind, multiplexer, outcome_onPart, Multiplexer.sending, outcome_onPart]
  revert hadd
  rcases outcome (Sending.addPacket packet) s.toSending with ⟨e | u, s'⟩ <;> intro hadd
  · exact ⟨rfl, hadd.1, hadd.2, rfl, rfl⟩
  · obtain ⟨sid, frames, s'', hmem, haccepts, hcarries, hsize, hout, hready, hsame⟩ := hadd
    have hsend := sendable_of_carries haccepts hcarries hsize hlength
    obtain ⟨items, cipher, hitems, hwritten⟩ :=
      exists_written id s.egress fun f hf => ⟨sid, hsend f hf⟩
    rw [show items.map (fun item => (id item.1, item.2)) = items from List.map_id items]
      at hwritten
    subst hitems
    dsimp only
    rw [outcome_bind, multiplexer, outcome_onPart, Multiplexer.sending, outcome_onPart]
    dsimp only
    rw [hout]
    dsimp only
    have hput := outcome_putMessages
      (s := ⟨⟨s'', s.toReceiving, s.egress⟩, s.messageQueue, s.packetQueue⟩) hwritten
    rw [hput]
    exact ⟨⟨packet, sid, _⟩, items, rfl, hmem, hcarries, hsend, rfl, hwritten, rfl, hready, hsame,
      rfl⟩

end MultiplexedSession

/-! ## Receiving -/

/-- What is on its way in one order: the rest of the packet that is partly received and
then the packets of which nothing is received. -/
structure Passing (known : ℕ → Prop) (added : List Packet) (flight : List Frame)
    (buffers : ChunkedBuffers) (received : List Packet) (opened : Option Opened)
    (pending : List Sealed) (arrived : List Packet) : Prop where
  validOpened : ∀ o ∈ opened, o.Valid known o.packet.protocolId
  validPending : ∀ x ∈ pending, x.Valid known (x.packet.protocolId, .chunked)
  inFlight : flight = opened.elim [] Opened.rest ++ pending.flatMap Sealed.frames
  lookup : ∀ p, known p → buffers.lookup p =
    some ((opened.filter fun o => o.packet.protocolId = p).elim [] Opened.buffer)
  history : added.filter (·.payload ≠ []) = arrived ++
    ((opened.map Opened.packet).toList ++ pending.map Sealed.packet).filter (·.payload ≠ [])
  plain : received = arrived.map Packet.plain

variable {known : ℕ → Prop} {added received arrived : List Packet} {flight : List Frame}
  {f : Frame} {buffers : ChunkedBuffers} {opened : Option Opened}
  {pending more : List Sealed}

omit [Rlp] in
/-- The buffers after the packet that is partly received changed. -/
theorem lookup_assign_passing (opened' : Option Opened) {p : ℕ}
    (h : ∀ q, known q → buffers.lookup q =
      some ((opened.filter fun o => o.packet.protocolId = q).elim [] Opened.buffer))
    (hopened : ∀ o ∈ opened, o.packet.protocolId = p)
    (hopened' : ∀ o ∈ opened', o.packet.protocolId = p) (q : ℕ) (hq : known q) :
    (AssocMap.assign p (opened'.elim [] Opened.buffer) buffers).lookup q =
      some ((opened'.filter fun o => o.packet.protocolId = q).elim [] Opened.buffer) := by
  have hfilter : ∀ {o : Option Opened}, (∀ x ∈ o, x.packet.protocolId = p) →
      o.filter (fun x => x.packet.protocolId = q) = if q = p then o else none := by
    intro o ho
    cases o with
    | none => simp
    | some x => simp [Option.filter_some, ho x rfl, eq_comm]
  rw [hfilter hopened']
  by_cases heq : q = p
  · rw [heq, AssocMap.lookup_assign_self, if_pos rfl]
  · rw [AssocMap.lookup_assign_of_ne heq, h q hq, hfilter hopened, if_neg heq, if_neg heq]

omit [Rlp] in
theorem delivered_plain (packet : Packet) : Decoding.delivered [some packet.plain] =
    ([packet].filter (·.payload ≠ [])).map Packet.plain := by
  rw [Decoding.delivered, List.flatMap_singleton, filter_singleton]
  show [packet.plain].filter _ = _
  rw [filter_singleton, show packet.plain.payload = packet.payload from rfl]
  split <;> rfl

/-- A frame of the packet that is partly received. -/
theorem Passing.handle_opened {o : Opened}
    (h : Passing known added (f :: flight) buffers received (some o) pending arrived) :
    ∃ x buffers' opened' arrived',
      f.build buffers = .ok (x, buffers') ∧
      Passing known added flight buffers' (received ++ Decoding.delivered [x]) opened' pending
        arrived' := by
  have hvalid := h.validOpened o rfl
  obtain ⟨f', rest, hrest⟩ := List.exists_cons_of_ne_nil hvalid.rest_ne_nil
  have hflight := h.inFlight
  rw [Option.elim_some, hrest, List.cons_append, List.cons.injEq] at hflight
  obtain ⟨rfl, hflight⟩ := hflight
  have hbuffer : buffers.lookup o.packet.protocolId = some o.buffer := by
    rw [h.lookup _ hvalid.known, Option.filter_some, if_pos (by simp)]
    rfl
  have hsame : ∀ x ∈ some o, x.packet.protocolId = o.packet.protocolId := by
    rintro _ ⟨⟩
    rfl
  by_cases hne : rest = []
  -- with its last frame the packet is complete
  · subst hne
    refine ⟨_, _, none, arrived ++ [o.packet].filter (·.payload ≠ []),
      hvalid.handle_last hbuffer hrest, ?_⟩
    refine ⟨fun _ ho => absurd ho (Option.not_mem_none _), h.validPending, hflight,
      lookup_assign_passing none h.lookup hsame
        (fun _ ho => absurd ho (Option.not_mem_none _)), ?_, ?_⟩
    · rw [h.history, List.append_assoc, ← List.filter_append]
      rfl
    · rw [h.plain, delivered_plain, List.map_append]
  · obtain ⟨hhandle, hvalid'⟩ := hvalid.handle_more hbuffer hrest hne
    refine ⟨_, _, some ⟨o.packet, o.sid, o.payload ++ f.payload, rest⟩, arrived, hhandle, ?_⟩
    refine ⟨?_, h.validPending, hflight, lookup_assign_passing
      (some ⟨o.packet, o.sid, o.payload ++ f.payload, rest⟩) h.lookup hsame ?_,
      h.history, ?_⟩
    · rintro _ ⟨⟩
      exact hvalid'
    · rintro _ ⟨⟩
      rfl
    · exact (List.append_nil _).trans h.plain

/-- The first frame of a packet. -/
theorem Passing.handle_pending
    (h : Passing known added (f :: flight) buffers received none pending arrived) :
    ∃ x buffers' opened' pending' arrived',
      f.build buffers = .ok (x, buffers') ∧
      Passing known added flight buffers' (received ++ Decoding.delivered [x]) opened' pending'
        arrived' := by
  have hflight := h.inFlight
  rw [Option.elim_none, List.nil_append] at hflight
  cases pending with
  | nil => exact absurd hflight (List.cons_ne_nil _ _)
  | cons x more =>
      obtain ⟨hvalid, hmore⟩ := List.forall_mem_cons.mp h.validPending
      obtain ⟨f', rest, hframes⟩ := List.exists_cons_of_ne_nil hvalid.carries.ne_nil
      rw [List.flatMap_cons, hframes, List.cons_append, List.cons.injEq] at hflight
      obtain ⟨rfl, hflight⟩ := hflight
      have hbuffer : buffers.lookup x.packet.protocolId = some [] := h.lookup _ hvalid.known
      have hcarries := hvalid.carries
      generalize hall : x.frames = frames at hcarries
      cases hcarries with
      | normal =>
          obtain ⟨rfl, rfl⟩ := List.cons.inj (hframes.symm.trans hall)
          -- a packet of one frame is complete at once
          refine ⟨_, _, none, more, arrived ++ [x.packet].filter (·.payload ≠ []),
            hvalid.handle_normal hbuffer rfl rfl hframes, ?_⟩
          refine ⟨h.validOpened, hmore, hflight, h.lookup, ?_, ?_⟩
          · rw [h.history, List.append_assoc, List.map_cons, ← List.filter_append]
            rfl
          · rw [h.plain, delivered_plain, List.map_append]
      | chunked hne hpayload hrest =>
          obtain ⟨hf, rfl⟩ := List.cons.inj (hframes.symm.trans hall)
          obtain ⟨hhandle, hopened⟩ :=
            hvalid.handle_chunked0 hbuffer hf hframes hne hpayload hrest
          refine ⟨_, _, some ⟨x.packet, x.sid, f.payload, rest⟩, more, arrived, hhandle, ?_⟩
          refine ⟨?_, hmore, hflight, lookup_assign_passing
            (some ⟨x.packet, x.sid, f.payload, rest⟩) h.lookup
            (fun _ ho => absurd ho (Option.not_mem_none _)) ?_, h.history, ?_⟩
          · rintro _ ⟨⟩
            exact hopened
          · rintro _ ⟨⟩
            rfl
          · exact (List.append_nil _).trans h.plain

theorem Passing.handle
    (h : Passing known added (f :: flight) buffers received opened pending arrived) :
    ∃ x buffers' opened' pending' arrived',
      f.build buffers = .ok (x, buffers') ∧
      Passing known added flight buffers' (received ++ Decoding.delivered [x]) opened' pending'
        arrived' := by
  cases opened with
  | none => exact h.handle_pending
  | some o =>
      obtain ⟨x, buffers', opened', arrived', hhandle, h'⟩ := h.handle_opened
      exact ⟨x, buffers', opened', pending, arrived', hhandle, h'⟩

/-! ## Two sessions -/

/-- Two sessions and the bytes between them. The packets that were taken on one side
are recorded. -/
structure Conversation where
  sender : MultiplexedSession
  wire : Bytes
  receiver : MultiplexedSession
  added : List Packet

namespace Conversation

/-- The first message of the queue goes to the wire, or a piece of the wire is read. -/
inductive Event
  | add (packet : Packet)
  | send
  | deliver (size : ℕ)

omit [Rlp] in
/-- The sessions and the protocols of both sides. -/
def start (session other : RLPxSession) (protocols others : List ℕ) : Conversation :=
  ⟨.registered session protocols, [], .registered other others, []⟩

variable [Aes] [Sha3]

def add (c : Conversation) (packet : Packet) : Conversation :=
  match outcome (MultiplexedSession.addPacket packet) c.sender with
  | (.ok _, sender) => { c with sender := sender, added := c.added ++ [packet] }
  | (.error _, sender) => { c with sender := sender }

omit [Rlp] [Aes] [Sha3] in
def send (c : Conversation) : Conversation :=
  match c.sender.messageQueue with
  | [] => c
  | message :: rest =>
      { c with
        sender := { c.sender with messageQueue := rest }
        wire := c.wire ++ message }

def deliver (c : Conversation) (size : ℕ) : Conversation :=
  { c with
    wire := c.wire.drop size
    receiver := (outcome (MultiplexedSession.addMessage (c.wire.take size)) c.receiver).2 }

def step (c : Conversation) : Event → Conversation
  | .add packet => c.add packet
  | .send => c.send
  | .deliver size => c.deliver size

omit [Rlp] [Aes] [Sha3] in
/-- The size of a packet fits its field. -/
def Allows : Event → Prop
  | .add packet => packet.payload.length + 2 < 2 ^ 32
  | .send => True
  | .deliver _ => True

inductive Reachable (session other : RLPxSession) (protocols others : List ℕ) :
    Conversation → Prop
  | start : Reachable session other protocols others (start session other protocols others)
  | step {c : Conversation} {event : Event} (h : Reachable session other protocols others c)
      (hallows : Allows event) : Reachable session other protocols others (c.step event)

/-- What holds between two steps, for the frames that are written and not decoded, with
their bytes. -/
structure Valid (others : List ℕ) (c : Conversation) (flight : List (Frame × Bytes))
    (opened : Option Opened) (pending : List Sealed) (arrived : List Packet) : Prop where
  ready : c.sender.Ready
  encrypts : c.sender.egress.isSome
  known : ∀ p ∈ c.sender.protocols, p ∈ others
  expects : c.receiver.Expects flight c.sender.egress
  waits : c.receiver.decodeBuffer.length < Decoding.framing.need c.receiver.toDecoding
  wire : c.receiver.decodeBuffer ++ (c.wire ++ c.sender.messageQueue.flatten) =
    flight.flatMap Prod.snd
  passing : Passing (· ∈ others) c.added (flight.map Prod.fst) c.receiver.chunkedBuffers
    c.receiver.packetQueue opened pending arrived

variable {c : Conversation} {session other : RLPxSession} {protocols others : List ℕ}
  {flight : List (Frame × Bytes)}

theorem start_valid (hsession : session.SameHandshake other) (hsub : protocols ⊆ others) :
    (start session other protocols others).Valid others [] none [] [] := by
  obtain ⟨hsender, hmem⟩ := Multiplexer.registered_fresh (some session) protocols
  obtain ⟨hreceiver, hmem'⟩ := Multiplexer.registered_fresh (some other) others
  have hegress : (start session other protocols others).sender.egress = some session.egress :=
    hsender.egress
  refine ⟨⟨hsender.rotates, fun p hp => ?_⟩, ?_, fun p hp => hsub ((hmem p).mp hp), ?_, ?_, ?_, ?_⟩
  · exact List.not_mem_nil ((hsender.flows.mem_iff p).mpr hp)
  · rw [hegress]
    rfl
  · rw [hegress, hsession.egress_eq]
    exact hreceiver.expects
  · exact hreceiver.waits
  · exact List.append_eq_nil_iff.mpr ⟨hreceiver.decodeBuffer, rfl⟩
  · exact ⟨fun _ ho => absurd ho (Option.not_mem_none _), fun _ hx => absurd hx List.not_mem_nil,
      rfl, fun p hp => hreceiver.chunkedBuffers p ((hmem' p).mpr hp), rfl, rfl⟩

theorem Valid.add (h : c.Valid others flight opened pending arrived) {packet : Packet}
    (hlength : packet.payload.length + 2 < 2 ^ 32) :
    ∃ flight' pending', (c.add packet).Valid others flight' opened pending' arrived := by
  have hadd := MultiplexedSession.addPacket_messages h.ready h.encrypts hlength
  rw [Conversation.add]
  revert hadd
  rcases outcome (MultiplexedSession.addPacket packet) c.sender with ⟨e | u, s'⟩ <;> intro hadd
  · obtain ⟨-, hready, hprotocols, hegress, hqueue⟩ := hadd
    exact ⟨flight, pending, hready, hegress ▸ h.encrypts, fun p hp => h.known p (hprotocols ▸ hp),
      hegress ▸ h.expects, h.waits, hqueue ▸ h.wire, h.passing⟩
  · obtain ⟨x, items, rfl, hmem, hcarries, hsend, hitems, hwritten, -, hready, hprotocols,
      hqueue⟩ := hadd
    have hpassing := h.passing
    refine ⟨flight ++ items, pending ++ [x], hready, hwritten.isSome h.encrypts,
      fun p hp => h.known p (hprotocols ▸ hp), h.expects.append hwritten, h.waits, ?_,
      hpassing.validOpened, fun y hy => ?_, ?_, hpassing.lookup, ?_, hpassing.plain⟩
    · change _ ++ (c.wire ++ s'.messageQueue.flatten) = _
      rw [hqueue, List.flatten_append, ← List.append_assoc c.wire, ← List.append_assoc, h.wire,
        List.flatMap_append, List.flatMap_def (l := items)]
    · rcases List.mem_append.mp hy with hy | hy
      · exact hpassing.validPending y hy
      · obtain rfl := List.mem_singleton.mp hy
        exact ⟨h.known _ hmem, rfl, hcarries, hsend, fun hne => absurd rfl hne⟩
    · rw [List.map_append, hitems, hpassing.inFlight, List.flatMap_append,
        List.flatMap_singleton, List.append_assoc]
    · rw [List.filter_append, hpassing.history, List.append_assoc, ← List.filter_append,
        List.map_append, List.append_assoc]
      rfl

theorem Valid.send (h : c.Valid others flight opened pending arrived) :
    c.send.Valid others flight opened pending arrived := by
  rw [Conversation.send]
  split
  next => exact h
  next message rest hqueue =>
    refine ⟨h.ready, h.encrypts, h.known, h.expects, h.waits, ?_, h.passing⟩
    rw [← h.wire, hqueue, List.flatten_cons]
    dsimp only
    rw [List.append_assoc c.wire]

/-- What holds while a piece of the wire is decoded. -/
def Delivered (others : List ℕ) (c : Conversation) (flight : List Frame)
    (buffers : ChunkedBuffers) (packets : List (Option Packet)) : Prop :=
  ∃ opened pending arrived, Passing (· ∈ others) c.added flight buffers
    (c.receiver.packetQueue ++ Decoding.delivered packets) opened pending arrived

omit [Aes] [Sha3] in
theorem Delivered.build {f : Frame} {frames : List Frame} {packets : List (Option Packet)}
    (h : c.Delivered others (f :: frames) buffers packets) :
    ∃ packet buffers', f.build buffers = .ok (packet, buffers') ∧
      c.Delivered others frames buffers' (packets ++ [packet]) := by
  obtain ⟨opened, pending, arrived, hpassing⟩ := h
  obtain ⟨x, buffers', opened', pending', arrived', hbuild, hpassing'⟩ := hpassing.handle
  refine ⟨x, buffers', hbuild, opened', pending', arrived', ?_⟩
  rwa [Decoding.delivered_append, ← List.append_assoc]

/-- Whatever part of the wire is decoded, it succeeds. -/
theorem Valid.deliver (h : c.Valid others flight opened pending arrived) (size : ℕ) :
    (outcome (MultiplexedSession.addMessage (c.wire.take size)) c.receiver).1 = .ok () ∧
      ∃ flight' opened' pending' arrived',
        (c.deliver size).Valid others flight' opened' pending' arrived' := by
  have hstream : c.receiver.decodeBuffer ++ c.wire.take size ++
      (c.wire.drop size ++ c.sender.messageQueue.flatten) = flight.flatMap Prod.snd := by
    rw [← h.wire, List.append_assoc, ← List.append_assoc (c.wire.take size),
      List.take_append_drop]
  have hsame : ∀ items : List (Frame × Bytes),
      items.map (fun item => (id item.1, item.2)) = items := fun items => List.map_id items
  -- nothing of the piece is decoded yet
  have hstart : c.Delivered others (flight.map Prod.fst) c.receiver.chunkedBuffers [] :=
    ⟨opened, pending, arrived, (List.append_nil c.receiver.packetQueue).symm ▸ h.passing⟩
  obtain ⟨xs, b, d, flight', hdrain, hexpects, ⟨opened', pending', arrived', hpassing⟩, hwire,
      hwaits⟩ :=
    drain_written id (c.Delivered others) Delivered.build ((hsame flight).symm ▸ h.expects) hstart
      hstream
  rw [hsame] at hexpects
  have hout := Receiving.outcome_decode c.receiver.toReceiving (c.wire.take size)
  rw [hdrain] at hout
  have hmessage : outcome (MultiplexedSession.addMessage (c.wire.take size)) c.receiver =
      (.ok (), ⟨{ c.receiver.toMultiplexer with toReceiving := ⟨d, b⟩ },
        c.receiver.messageQueue, c.receiver.packetQueue ++ Decoding.delivered xs⟩) := by
    rw [MultiplexedSession.addMessage, outcome_bind, MultiplexedSession.receiving,
      outcome_onPart, hout]
    rfl
  rw [Conversation.deliver, hmessage]
  exact ⟨rfl, flight', opened', pending', arrived', h.ready, h.encrypts, h.known, hexpects,
    hwaits, hwire, hpassing⟩

theorem Reachable.valid (hsession : session.SameHandshake other) (hsub : protocols ⊆ others)
    (h : Reachable session other protocols others c) :
    ∃ flight opened pending arrived, c.Valid others flight opened pending arrived := by
  induction h with
  | start => exact ⟨_, _, _, _, start_valid hsession hsub⟩
  | @step c event _ hallows ih =>
      obtain ⟨flight, opened, pending, arrived, hvalid⟩ := ih
      cases event with
      | add packet =>
          obtain ⟨flight', pending', hvalid'⟩ := hvalid.add hallows
          exact ⟨flight', opened, pending', arrived, hvalid'⟩
      | send => exact ⟨flight, opened, pending, arrived, hvalid.send⟩
      | deliver size => exact (hvalid.deliver size).2

/-- Nothing is on its way when the messages are sent and the wire is read. -/
theorem Valid.arrived_eq (h : c.Valid others flight opened pending arrived)
    (hqueue : c.sender.messageQueue = []) (hwire : c.wire = []) :
    arrived = c.added.filter (·.payload ≠ []) := by
  have hpassing := h.passing
  have hflight : flight = [] := by
    have hbytes := h.wire
    rw [hwire, hqueue, List.flatten_nil, List.append_nil, List.append_nil] at hbytes
    have hexpects := h.expects
    cases flight with
    | nil => rfl
    | cons item flight =>
        -- the buffer would begin with a whole frame, which the receiver has not left there
        have hwaits := h.waits
        rw [hbytes, List.flatMap_cons, List.length_append] at hwaits
        exact absurd hexpects.need_le (by omega)
  have hparts := hpassing.inFlight
  rw [hflight, List.map_nil, eq_comm, List.append_eq_nil_iff] at hparts
  have hopened : opened = none := by
    cases opened with
    | none => rfl
    | some o => exact absurd hparts.1 (hpassing.validOpened o rfl).rest_ne_nil
  have hpending : pending = [] := by
    apply List.eq_nil_iff_forall_not_mem.mpr
    intro x hx
    obtain ⟨f, hf⟩ := List.exists_mem_of_ne_nil _ (hpassing.validPending x hx).carries.ne_nil
    exact List.not_mem_nil (hparts.2 ▸ List.mem_flatMap.mpr ⟨x, hx, hf⟩)
  rw [hpassing.history, hopened, hpending]
  exact (List.append_nil _).symm

/-- However adding, sending and reading interleave, every piece is decoded, and what
came out is the beginning of what was taken, all packets with a payload in their
order. Once all messages are sent and read it is all of it. -/
theorem packets_in_order (hsession : session.SameHandshake other) (hsub : protocols ⊆ others)
    (h : Reachable session other protocols others c) :
    (∀ size, (outcome (MultiplexedSession.addMessage (c.wire.take size)) c.receiver).1 = .ok ()) ∧
    c.receiver.packetQueue <+: (c.added.filter (·.payload ≠ [])).map Packet.plain ∧
    (c.sender.messageQueue = [] → c.wire = [] →
      c.receiver.packetQueue = (c.added.filter (·.payload ≠ [])).map Packet.plain) := by
  obtain ⟨flight, opened, pending, arrived, hvalid⟩ := h.valid hsession hsub
  have hreceived := hvalid.passing.plain
  refine ⟨fun size => (hvalid.deliver size).1, ?_, fun hqueue hwire => ?_⟩
  · rw [hreceived, hvalid.passing.history, List.map_append]
    exact List.prefix_append _ _
  · rw [hreceived, hvalid.arrived_eq hqueue hwire]

/-! ## Sending all messages -/

/-- A packet that is taken is recorded, and all its frames are popped. -/
theorem add_of_ok (h : c.Valid others flight opened pending arrived) {packet : Packet}
    (hlength : packet.payload.length + 2 < 2 ^ 32)
    (hok : (outcome (Sending.addPacket packet) c.sender.toSending).1 = .ok ()) :
    (outcome (MultiplexedSession.addPacket packet) c.sender).1 = .ok () ∧
      (c.add packet).added = c.added ++ [packet] ∧ (c.add packet).sender.toSending =
        (outcome popAllFrames (outcome (Sending.addPacket packet) c.sender.toSending).2).2 := by
  have hadd := MultiplexedSession.addPacket_messages h.ready h.encrypts hlength
  rw [Conversation.add]
  revert hadd
  rcases outcome (MultiplexedSession.addPacket packet) c.sender with ⟨e | u, s'⟩ <;> intro hadd
  · rw [hadd.1] at hok
    exact absurd hok error_ne_ok
  · obtain ⟨_, _, -, -, -, -, -, -, hout, -⟩ := hadd
    rw [hout]
    exact ⟨rfl, rfl, rfl⟩

theorem deliver_keeps (c : Conversation) (size : ℕ) : (c.deliver size).sender = c.sender ∧
    (c.deliver size).wire = c.wire.drop size ∧ (c.deliver size).added = c.added :=
  ⟨rfl, rfl, rfl⟩

/-- After as many sends as there are messages all are sent. -/
theorem Reachable.sends (h : Reachable session other protocols others c) {n : ℕ}
    (hn : c.sender.messageQueue.length ≤ n) :
    Reachable session other protocols others (Conversation.send^[n] c) ∧
      (Conversation.send^[n] c).sender.messageQueue = [] ∧
      (Conversation.send^[n] c).added = c.added := by
  induction n generalizing c with
  | zero => exact ⟨h, List.length_eq_zero_iff.mp (Nat.le_zero.mp hn), rfl⟩
  | succ n ih =>
      have hallows : Allows .send := trivial
      have hsend : c.send.sender.messageQueue.length ≤ n ∧ c.send.added = c.added := by
        rw [Conversation.send]
        split
        next hqueue => exact ⟨by rw [hqueue]; exact Nat.zero_le n, rfl⟩
        next message rest hqueue =>
          rw [hqueue] at hn
          exact ⟨Nat.le_of_succ_le_succ hn, rfl⟩
      rw [Function.iterate_succ_apply, ← hsend.2]
      exact ih (h.step hallows) hsend.1

end Conversation

end Sessions

namespace Conversation

section Witness

attribute [local instance] shortRlp rijndaelAes keccakSha3

/-- A packet of two frames. -/
def large : Packet := ⟨1, 0, List.replicate 9000 7, false⟩

def urgent : Packet := ⟨0, 2, [5], true⟩

def opening : Conversation := start (sessionOf true) (sessionOf false) [0, 1] [0, 1]

def queued : Conversation := (opening.step (.add large)).step (.add urgent)

def sent : Conversation := Conversation.send^[queued.sender.messageQueue.length] queued

/-- The first bytes of the first message are read. -/
def midway : Conversation := sent.step (.deliver 100)

/-- All messages are read. -/
def finished : Conversation := midway.step (.deliver midway.wire.length)

theorem length_large : large.payload.length + 2 < 2 ^ 32 := by
  change (List.replicate 9000 (7 : UInt8)).length + 2 < 2 ^ 32
  rw [List.length_replicate]
  norm_num

theorem queued_reachable :
    Reachable (sessionOf true) (sessionOf false) [0, 1] [0, 1] queued ∧
      queued.added = [large, urgent] := by
  have hlarge : Allows (.add large) := length_large
  have hurgent : Allows (.add urgent) := (by decide : [5].length + 2 < 2 ^ 32)
  have hstart : Reachable (sessionOf true) (sessionOf false) [0, 1] [0, 1] opening := .start
  have hfirst := hstart.step hlarge
  have hsub : [0, 1] ⊆ [0, 1] := List.Subset.refl _
  obtain ⟨_, _, _, _, hvalid⟩ := hstart.valid sameHandshake_sessionOf hsub
  obtain ⟨_, _, _, _, hvalid'⟩ := hfirst.valid sameHandshake_sessionOf hsub
  have hsender : opening.sender.toSending = (Multiplexer.registered none [0, 1]).toSending := rfl
  obtain ⟨-, hadded, hnext⟩ := add_of_ok hvalid length_large (by rw [hsender]; decide +kernel)
  rw [hsender] at hnext
  have hok : (outcome (Sending.addPacket urgent)
      (opening.step (.add large)).sender.toSending).1 = .ok () := by
    rw [step, hnext]
    decide +kernel
  obtain ⟨-, hadded', -⟩ := add_of_ok hvalid' hurgent hok
  refine ⟨hfirst.step hurgent, hadded'.trans ?_⟩
  rw [step, hadded]
  rfl

theorem finished_reachable :
    Reachable (sessionOf true) (sessionOf false) [0, 1] [0, 1] finished ∧
      finished.sender.messageQueue = [] ∧ finished.wire = [] ∧
      finished.added = [large, urgent] := by
  obtain ⟨hqueued, hadded⟩ := queued_reachable
  have hsends : Reachable (sessionOf true) (sessionOf false) [0, 1] [0, 1] sent ∧
      sent.sender.messageQueue = [] ∧ sent.added = queued.added := by
    rw [sent]
    exact hqueued.sends (le_refl queued.sender.messageQueue.length)
  obtain ⟨hsent, hqueue, hsame⟩ := hsends
  have hallows : ∀ size, Allows (.deliver size) := fun _ => trivial
  have hmidway := hsent.step (hallows 100)
  have hfinished := hmidway.step (hallows midway.wire.length)
  refine ⟨hfinished, ?_, ?_, ?_⟩
  · simp only [finished, midway, step, deliver_keeps, hqueue]
  · simp only [finished, step, deliver_keeps, List.drop_length]
  · simp only [finished, midway, step, deliver_keeps, hsame, hadded]

/-- Two protocols, a packet in two frames and a cut in the first of them. -/
theorem packets_in_order_two :
    ((∀ size, (outcome (MultiplexedSession.addMessage (finished.wire.take size))
        finished.receiver).1 = .ok ()) ∧
      finished.receiver.packetQueue <+:
        (finished.added.filter (·.payload ≠ [])).map Packet.plain ∧
      (finished.sender.messageQueue = [] → finished.wire = [] →
        finished.receiver.packetQueue =
          (finished.added.filter (·.payload ≠ [])).map Packet.plain)) ∧
      finished.receiver.packetQueue = [large.plain, urgent.plain] := by
  obtain ⟨hreachable, hqueue, hwire, hadded⟩ := finished_reachable
  have horder := packets_in_order sameHandshake_sessionOf (List.Subset.refl [0, 1]) hreachable
  refine ⟨horder, (horder.2.2 hqueue hwire).trans ?_⟩
  have hlarge : large.payload ≠ [] := List.cons_ne_nil _ _
  have hurgent : urgent.payload ≠ [] := List.cons_ne_nil _ _
  rw [hadded, List.filter_cons_of_pos (by exact decide_eq_true hlarge),
    List.filter_cons_of_pos (by exact decide_eq_true hurgent)]
  rfl

end Witness

end Conversation

end Hgfrr.Multiplexing
