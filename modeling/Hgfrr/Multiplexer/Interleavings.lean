import Hgfrr.Multiplexer.Delivery

/-!
# Every interleaving

However adding, popping and decoding interleave, nothing fails on the way, and the
packets of a queue come out as they were added and in their order.
-/

namespace Hgfrr.Multiplexing

open Effects Lanes Sending

namespace Sending

variable {s : Sending}

theorem protocolWindowSize_le (protocolId : Option ℕ) :
    s.protocolWindowSize protocolId ≤ maxWindowSize := by
  rw [protocolWindowSize]
  split <;> exact (Nat.sub_le _ _).trans (Nat.div_le_self _ _)

end Sending

section Interleaving

variable [Rlp]

/-- Every frame of a packet that is taken goes over the wire. -/
theorem sendable_of_carries {s : Sending} {packet : Packet} {sid : ℕ} {frames : List Frame}
    (h : s.Accepts packet sid) (hcarries : Carries packet sid frames)
    (hsize : ∀ f ∈ frames, f.frameSize ≤ s.protocolWindowSize packet.protocolId)
    (hlength : packet.payload.length + 2 < 2 ^ 32) : ∀ f ∈ frames, f.Sendable sid := by
  -- the total size of the body is the largest number of a header
  have htotal : (packetFrame packet sid).bodySize < 2 ^ 32 := by
    have hcmd : (packetFrame packet sid).encCmdId.length ≤ 2 := Frame.length_encCmdId_le h.cmdId
    exact lt_of_le_of_lt (Nat.add_le_add_right hcmd _) (by rwa [Nat.add_comm])
  intro f hf
  obtain ⟨hprotocol, hcmd, hsid⟩ := hcarries.ids hf
  refine ⟨hcmd ▸ h.cmdId, hprotocol ▸ h.protocolId, hsid, h.sequenceId, ?_, ?_⟩
  · exact (hsize f hf).trans ((protocolWindowSize_le _).trans (by decide))
  · cases hcarries with
    | normal =>
        obtain rfl := List.mem_singleton.mp hf
        exact fun _ htotal => absurd htotal (Option.not_mem_none _)
    | chunked hne hpayload hrest =>
        rcases List.mem_cons.mp hf with rfl | hf
        · rintro _ ⟨⟩
          exact htotal
        · rw [(hrest f hf).totalPayloadSize]
          exact fun _ htotal => absurd htotal (Option.not_mem_none _)

/-! ## The steps -/

section Steps

variable {known : ℕ → Prop} {queue queue' : Lane → List Frame} {added : List (Lane × Packet)}
  {flight : List (Lane × Frame)} {buffers : ChunkedBuffers} {received : List Packet} {g : Ghost}
  {t : Lane} {p : ℕ}

/-- Frames go from the queues to the wire. -/
theorem Agrees.pop {taken : List (Lane × Frame)}
    (h : Agrees known queue added flight buffers received g)
    (hqueue : ∀ t, queue t = lane t taken ++ queue' t) :
    Agrees known queue' added (flight ++ taken) buffers received g := by
  refine ⟨h.pending, h.opened, fun t => ?_, h.buffers, h.sids, h.history, h.received⟩
  rw [← h.lanes t, lane_append, List.append_assoc, ← hqueue]

namespace Ghost

/-- A packet is added to a queue. -/
def append (g : Ghost) (t : Lane) (x : Sealed) : Ghost :=
  { g with pending := Function.update g.pending t (g.pending t ++ [x]) }

omit [Rlp] in
theorem pending_append_self (x : Sealed) : (g.append t x).pending t = g.pending t ++ [x] :=
  Function.update_self ..

omit [Rlp] in
theorem pending_append_of_ne {t' : Lane} (ht : t' ≠ t) (x : Sealed) :
    (g.append t x).pending t' = g.pending t' := Function.update_of_ne ht _ _

omit [Rlp] in
theorem sids_append_of_ne (hp : p ≠ t.1) (x : Sealed) : (g.append t x).sids p = g.sids p := by
  have hne : ∀ name, (p, name) ≠ t := fun name heq => hp (heq ▸ rfl)
  rw [sids, pending_append_of_ne (hne _), pending_append_of_ne (hne _),
    pending_append_of_ne (hne _)]
  rfl

omit [Rlp] in
/-- The sequence id of the packet is in use. -/
theorem sids_append (x : Sealed) : ((g.append t x).sids t.1).Perm (x.sid :: g.sids t.1) := by
  have hcount : ∀ {l l' : List ℕ}, l = l' → l.Perm l' := fun heq => heq ▸ List.Perm.refl _
  have hmap : ∀ name, ((g.append t x).pending (t.1, name)).map Sealed.sid =
      (g.pending (t.1, name)).map Sealed.sid ++ if name = t.2 then [x.sid] else [] := by
    intro name
    by_cases hname : name = t.2
    · subst hname
      rw [if_pos rfl, pending_append_self, List.map_append]
      rfl
    · rw [if_neg hname, pending_append_of_ne fun heq => hname (congrArg Prod.snd heq),
        List.append_nil]
  rw [List.perm_iff_count]
  intro sid
  rw [sids, sids, hmap, hmap, hmap]
  obtain ⟨q, name⟩ := t
  have hopened : (g.append (q, name) x).opened = g.opened := rfl
  rw [hopened]
  cases name <;> simp only [List.count_append, List.count_cons] <;> grind

end Ghost

/-- The frames of a packet go to the end of a queue. -/
theorem Agrees.add {x : Sealed} (h : Agrees known queue added flight buffers received g)
    (hx : x.Valid known t) (hsid : x.sid ∉ g.sids t.1) (hself : queue' t = queue t ++ x.frames)
    (hother : ∀ t' ≠ t, queue' t' = queue t') :
    Agrees known queue' (added ++ [(t, x.packet)]) flight buffers received (g.append t x) := by
  refine ⟨fun t' y hy => ?_, h.opened, fun t' => ?_, h.buffers, fun p => ?_, fun t' => ?_,
    h.received⟩
  · by_cases ht : t' = t
    · subst ht
      rw [Ghost.pending_append_self] at hy
      rcases List.mem_append.mp hy with hy | hy
      · exact h.pending _ y hy
      · exact List.mem_singleton.mp hy ▸ hx
    · rw [Ghost.pending_append_of_ne ht] at hy
      exact h.pending _ y hy
  · by_cases ht : t' = t
    · subst ht
      rw [hself, ← List.append_assoc, h.lanes, Ghost.frames, Ghost.frames,
        Ghost.pending_append_self, List.flatMap_append, List.flatMap_singleton, List.append_assoc]
      rfl
    · rw [hother t' ht, h.lanes, Ghost.frames, Ghost.frames, Ghost.pending_append_of_ne ht]
      rfl
  · by_cases hp : p = t.1
    · rw [hp, (Ghost.sids_append x).nodup_iff]
      exact List.nodup_cons.mpr ⟨hsid, h.sids _⟩
    · rw [Ghost.sids_append_of_ne hp]
      exact h.sids p
  · by_cases ht : t' = t
    · subst ht
      rw [lane_append, lane_cons_self, lane_nil, List.filter_append, h.history, Ghost.packets,
        Ghost.packets, Ghost.pending_append_self, List.map_append, List.append_assoc,
        ← List.filter_append, ← List.append_assoc]
      rfl
    · rw [lane_append, lane_cons_of_ne (Ne.symm ht), lane_nil, List.append_nil, h.history,
        Ghost.packets, Ghost.packets, Ghost.pending_append_of_ne ht]
      rfl

end Steps

namespace Link

variable [Aes] [Sha3]

/-- What holds between two steps, for the frames that are written and not decoded, with
their bytes. -/
structure Valid (others : List ℕ) (l : Link) (flight : List ((Lane × Frame) × Bytes)) (g : Ghost) :
    Prop where
  rotates : l.sender.Rotates
  known : ∀ p ∈ l.sender.protocols, p ∈ others
  expects : l.receiver.Expects (flight.map fun item => (item.1.2, item.2)) l.egress
  waits : l.receiver.decodeBuffer.length < Decoding.framing.need l.receiver.toDecoding
  wire : l.receiver.decodeBuffer ++ l.wire = flight.flatMap Prod.snd
  agrees : Agrees (· ∈ others) l.sender.waiting l.added (flight.map Prod.fst)
    l.receiver.chunkedBuffers l.received g

variable {l : Link} {others protocols : List ℕ} {ciphers : Option (RLPxSession × RLPxSession)}
  {flight : List ((Lane × Frame) × Bytes)} {g : Ghost}

/-- A link on which nothing was added is valid. -/
theorem start_valid (hciphers : Agreed ciphers) (hsub : protocols ⊆ others) :
    (start ciphers protocols others).Valid others [] .empty := by
  obtain ⟨hsender, hmem⟩ := Multiplexer.registered_fresh (ciphers.map Prod.fst) protocols
  obtain ⟨hreceiver, hmem'⟩ := Multiplexer.registered_fresh (ciphers.map Prod.snd) others
  have hwaiting : ∀ t,
      (Multiplexer.registered (ciphers.map Prod.fst) protocols).waiting t = [] := by
    intro t
    apply waiting_eq_nil
    rintro ⟨queues, hqueues, hsize⟩
    apply hsize
    rw [show queues = .empty from hsender.queues _ (AssocMap.mem_of_lookup hqueues)]
    rfl
  refine ⟨hsender.rotates, fun p hp => hsub ((hmem p).mp hp), ?_, ?_, ?_, ?_⟩
  · have hegress : (start ciphers protocols others).egress =
        (ciphers.map Prod.snd).map RLPxSession.ingress := hsender.egress.trans hciphers.egress_eq
    rw [hegress]
    exact hreceiver.expects
  · exact hreceiver.waits
  · exact List.append_eq_nil_iff.mpr ⟨hreceiver.decodeBuffer, rfl⟩
  · have hopened : ∀ t, Ghost.empty.openedIn t = none := by
      rintro ⟨p, _ | _ | _⟩ <;> rfl
    refine ⟨fun _ _ h => absurd h List.not_mem_nil, fun _ _ h => absurd h (Option.not_mem_none _),
      fun t => ?_, fun p hp => ?_, fun _ => List.nodup_nil, fun t => ?_, rfl⟩
    · rw [Ghost.frames, hopened]
      exact hwaiting t
    · exact hreceiver.chunkedBuffers p ((hmem' p).mpr hp)
    · rw [Ghost.packets, hopened]
      rfl

/-- All frames on the way are sendable. -/
theorem Valid.sendable (h : l.Valid others flight g) {t : Lane} {f : Frame}
    (hf : (t, f) ∈ flight.map Prod.fst ∨ f ∈ l.sender.waiting t) :
    f.protocolId = t.1 ∧ ∃ sid ∈ g.sids t.1, f.Sendable sid :=
  h.agrees.frame (List.mem_append.mpr (hf.imp mem_lane.mpr id))

/-- A sequence id in use is that of a packet on its way. -/
theorem Valid.underway (h : l.Valid others flight g) {p sid : ℕ} (hsid : sid ∈ g.sids p) :
    l.Underway p sid := by
  have hpending : ∀ name, sid ∈ (g.pending (p, name)).map Sealed.sid → l.Underway p sid := by
    intro name hmem
    obtain ⟨x, hx, rfl⟩ := List.mem_map.mp hmem
    have hvalid := h.agrees.pending _ x hx
    obtain ⟨f, hf⟩ := List.exists_mem_of_ne_nil _ hvalid.carries.ne_nil
    have hframes : f ∈ lane (p, name) (flight.map Prod.fst) ++
        l.sender.waiting (p, name) := by
      rw [h.agrees.lanes]
      exact List.mem_append_right _ (List.mem_flatMap.mpr ⟨x, hx, hf⟩)
    refine Or.inl ⟨f, ?_, (hvalid.sendable f hf).sequenceId⟩
    rcases List.mem_append.mp hframes with hflight | hwaiting
    -- the frame is in the bytes that the receiver has not decoded
    · obtain ⟨egress, hwritten⟩ := h.expects.written
      have hbytes := hwritten.outcome_bytesOf
      rw [List.map_map, List.flatMap_map] at hbytes
      refine Or.inr ⟨⟨egress, _, h.wire ▸ hbytes, ?_⟩,
        (h.sendable (t := (p, name)) (Or.inl ?_)).1⟩
      · obtain ⟨item, hitem, heq⟩ := List.mem_map.mp (mem_lane.mp hflight)
        exact List.mem_map.mpr ⟨item, hitem, congrArg Prod.snd heq⟩
      · exact mem_lane.mp hflight
    · exact Or.inl (holds_of_mem_waiting hwaiting)
  rw [Ghost.sids] at hsid
  rcases List.mem_append.mp hsid with hsid | hsid
  · rcases List.mem_append.mp hsid with hsid | hsid
    · rcases List.mem_append.mp hsid with hsid | hsid
      · -- the packet that is partly received
        obtain ⟨o, ho, rfl⟩ := List.mem_map.mp (Option.toList_map .. ▸ hsid)
        have hopened := Option.mem_toList.mp ho
        refine Or.inr ⟨_, h.agrees.buffers p (h.agrees.opened p o hopened).known, ?_⟩
        rw [hopened]
        exact List.mem_cons_self
      · exact hpending _ hsid
    · exact hpending _ hsid
  · exact hpending _ hsid

/-- A packet that is added waits on its lane. -/
theorem Valid.add (h : l.Valid others flight g) {packet : Packet}
    (hallows : l.Allows (.add packet)) : ∃ g', (l.add packet).Valid others flight g' := by
  obtain ⟨hlength, hfresh⟩ := hallows
  have hprotocols := (step_add (s := l.sender) packet).1
  have hrotates := h.rotates.step (.add packet)
  have hadds := addPacket_adds l.sender packet
  rw [Link.add]
  rw [Sending.step] at hrotates hprotocols
  generalize outcome (addPacket packet) l.sender = r at hadds hrotates hprotocols
  cases hadds with
  | unknown => exact ⟨g, h.rotates, h.known, h.expects, h.waits, h.wire, h.agrees⟩
  | refused => exact ⟨g, hrotates, h.known, h.expects, h.waits, h.wire, h.agrees⟩
  | @added sid queues frames name hsid hqueues haccepts hframes hname =>
      obtain ⟨hcarries, hsize, -⟩ := frames_packetFrame hframes
      have hqueue : queueFor l.sender packet = .ok name := by
        rw [queueFor, hsid]
        show ((packetFrame packet sid).frames _ >>= fun frames => queueName packet frames) = _
        rw [hframes]
        exact hname
      have hvalid : Sealed.Valid (· ∈ others) (packet.protocolId, name) ⟨packet, sid, frames⟩ :=
        ⟨h.known _ (AssocMap.mem_map_fst_of_lookup hqueues), rfl, hcarries,
          sendable_of_carries haccepts hcarries hsize hlength,
          fun hne => of_not_not fun hlen => hne ((queueName_eq_ok hname).2.2.mpr hlen)⟩
      rw [hqueue]
      refine ⟨g.append (packet.protocolId, name) ⟨packet, sid, frames⟩, hrotates,
        fun p hp => h.known p (hprotocols ▸ hp), h.expects, h.waits, h.wire, ?_⟩
      apply h.agrees.add hvalid
      -- an id in use is that of a packet underway, which the next id is not
      · exact fun hmem => hfresh sid hsid (h.underway hmem)
      · exact waiting_put_self hqueues
      · exact fun t ht => waiting_put_of_ne hqueues ht

/-- The frames of a turn go over to the wire, sealed in order. -/
theorem Valid.pop (h : l.Valid others flight g) : ∃ flight', l.pop.Valid others flight' g ∧
    (l.sender.protocols ≠ [] → ∃ frames s' bytes egress,
      outcome popFrames l.sender = (.ok frames, s') ∧
      outcome (Frame.bytesOf frames) l.egress = (.ok bytes, egress) ∧
      l.pop = { l with sender := s', egress := egress, wire := l.wire ++ bytes }) := by
  by_cases hne : l.sender.protocols = []
  · rw [Link.pop, popFrames_of_nil hne]
    exact ⟨flight, ⟨h.rotates, h.known, h.expects, h.waits, h.wire, h.agrees⟩,
      fun hne' => absurd hne hne'⟩
  · obtain ⟨taken, hout, hqueue⟩ := popFrames_waiting h.rotates hne
    -- the frames are written from where the cipher of the sender is
    have hsendable : ∀ entry ∈ taken, ∃ sid, entry.2.Sendable sid := by
      rintro ⟨t, f⟩ hmem
      refine (h.sendable (t := t) (Or.inr ?_)).2.imp fun _ hsid => hsid.2
      rw [hqueue]
      exact List.mem_append_left _ (mem_lane.mpr hmem)
    obtain ⟨items, egress, htaken, hwritten⟩ := exists_written Prod.snd l.egress hsendable
    subst htaken
    have hbytes : outcome (Frame.bytesOf (items.map (Prod.snd ∘ Prod.fst))) l.egress =
        (.ok (items.flatMap Prod.snd), egress) := by
      have hbytes := hwritten.outcome_bytesOf
      rwa [List.map_map, List.flatMap_map] at hbytes
    rw [List.map_map] at hout
    have hpop : l.pop = { l with
        sender := l.sender.step .pop
        egress := egress
        wire := l.wire ++ items.flatMap Prod.snd } := by
      rw [Link.pop, hout]
      dsimp only
      rw [hbytes]
    have hprotocols := protocols_step h.rotates .pop
    rw [hpop]
    refine ⟨flight ++ items, ⟨h.rotates.step .pop, fun q hq => h.known q (hprotocols ▸ hq), ?_,
      h.waits, ?_, ?_⟩, fun _ => ⟨_, _, _, _, hout, hbytes, rfl⟩⟩
    · rw [List.map_append]
      exact h.expects.append hwritten
    · rw [List.flatMap_append, ← h.wire, List.append_assoc]
    · rw [List.map_append]
      exact h.agrees.pop hqueue

/-- What holds while a piece of the wire is decoded. -/
def Delivered (others : List ℕ) (l : Link) (flight : List (Lane × Frame))
    (buffers : ChunkedBuffers) (packets : List (Option Packet)) : Prop :=
  ∃ g, Agrees (· ∈ others) l.sender.waiting l.added flight buffers
    (l.received ++ Decoding.delivered packets) g

omit [Aes] [Sha3] in
/-- The next frame of a lane is built into its packet. -/
theorem Delivered.build {entry : Lane × Frame} {flight : List (Lane × Frame)}
    {buffers : ChunkedBuffers} {packets : List (Option Packet)}
    (h : l.Delivered others (entry :: flight) buffers packets) :
    ∃ packet buffers', entry.2.build buffers = .ok (packet, buffers') ∧
      l.Delivered others flight buffers' (packets ++ [packet]) := by
  obtain ⟨g, hagrees⟩ := h
  obtain ⟨packet, buffers', g', hbuild, hagrees'⟩ := hagrees.handle
  refine ⟨packet, buffers', hbuild, g', ?_⟩
  rwa [Decoding.delivered_append, ← List.append_assoc]

/-- Whatever part of the wire is decoded, it succeeds. -/
theorem Valid.deliver (h : l.Valid others flight g) (size : ℕ) :
    ∃ packets r flight' g', outcome (Receiving.decode (l.wire.take size)) l.receiver =
        (.ok packets, r) ∧ (l.deliver size).Valid others flight' g' := by
  have hstream : l.receiver.decodeBuffer ++ l.wire.take size ++ l.wire.drop size =
      flight.flatMap Prod.snd := by
    rw [List.append_assoc, List.take_append_drop, h.wire]
  have hstart : l.Delivered others (flight.map Prod.fst) l.receiver.chunkedBuffers [] :=
    ⟨g, (List.append_nil l.received).symm ▸ h.agrees⟩
  -- decoding takes whole frames and keeps the bytes of the one that is cut
  obtain ⟨xs, b, d, flight', hdrain, hexpects, ⟨g', hagrees⟩, hwire, hwaits⟩ :=
    drain_written Prod.snd (l.Delivered others) Delivered.build h.expects hstart hstream
  have hout := Receiving.outcome_decode l.receiver (l.wire.take size)
  rw [hdrain] at hout
  refine ⟨_, _, flight', g', hout, ?_⟩
  rw [Link.deliver, hout]
  exact ⟨h.rotates, h.known, hexpects, hwaits, hwire, hagrees⟩

/-! ## Runs -/

variable {allows : Link → Event → Prop}

/-- Every run keeps a link valid. -/
theorem Reachable.valid (hciphers : Agreed ciphers) (hsub : protocols ⊆ others)
    (hallows : ∀ l event, allows l event → l.Allows event)
    (h : Reachable allows ciphers protocols others l) : ∃ flight g, l.Valid others flight g := by
  induction h with
  | start => exact ⟨_, _, start_valid hciphers hsub⟩
  | @step l event _ hallow ih =>
      obtain ⟨flight, g, hvalid⟩ := ih
      cases event with
      | add packet =>
          obtain ⟨g', hvalid'⟩ := hvalid.add (hallows _ _ hallow)
          exact ⟨flight, g', hvalid'⟩
      | pop =>
          obtain ⟨flight', hvalid', -⟩ := hvalid.pop
          exact ⟨flight', g, hvalid'⟩
      | deliver size =>
          obtain ⟨_, _, flight', g', -, hvalid'⟩ := hvalid.deliver size
          exact ⟨flight', g', hvalid'⟩

/-- However the steps interleave, all frames that are popped have bytes and every
piece of the wire is decoded. The packets that came out are packets with a payload
that were added, none of them twice and those of each queue in their order. -/
theorem in_order (hciphers : Agreed ciphers) (hsub : protocols ⊆ others)
    (h : Reachable Allows ciphers protocols others l) :
    (∀ frames s', outcome popFrames l.sender = (.ok frames, s') →
      ∃ bytes egress, outcome (Frame.bytesOf frames) l.egress = (.ok bytes, egress)) ∧
    (∀ size, ∃ packets r,
      outcome (Receiving.decode (l.wire.take size)) l.receiver = (.ok packets, r)) ∧
    ∃ arrived : List (Lane × Packet), l.received = arrived.map (fun entry => entry.2.plain) ∧
      ∀ t, lane t arrived <+: (lane t l.added).filter (·.payload ≠ []) := by
  obtain ⟨flight, g, hvalid⟩ := h.valid hciphers hsub fun _ _ => id
  refine ⟨fun frames s' hout => ?_, fun size => ?_, g.arrived, hvalid.agrees.received, fun t => ?_⟩
  · obtain ⟨flight', -, hpop⟩ := hvalid.pop
    by_cases hne : l.sender.protocols = []
    · rw [popFrames_of_nil hne] at hout
      exact absurd (congrArg Prod.fst hout) error_ne_ok
    · obtain ⟨frames', s'', bytes, egress, hout', hbytes, -⟩ := hpop hne
      rw [hout'] at hout
      obtain rfl := Except.ok.inj (congrArg Prod.fst hout)
      exact ⟨bytes, egress, hbytes⟩
  · obtain ⟨packets, r, -, -, hout, -⟩ := hvalid.deliver size
    exact ⟨packets, r, hout⟩
  · rw [hvalid.agrees.history t]
    exact List.prefix_append _ _

/-- When nothing is on its way any more, everything has arrived. -/
theorem Valid.arrived (h : l.Valid others flight g)
    (hidle : ∀ p, ¬ l.sender.isActiveProtocol p) (hwire : l.wire = []) (t : Lane) :
    lane t g.arrived = (lane t l.added).filter (·.payload ≠ []) := by
  have hflight : flight = [] := by
    have hbytes := h.wire
    rw [hwire, List.append_nil] at hbytes
    have hexpects := h.expects
    cases flight with
    | nil => rfl
    | cons item flight =>
        -- the buffer would begin with a whole frame, which the receiver has not left there
        have hwaits := h.waits
        rw [hbytes, List.flatMap_cons, List.length_append] at hwaits
        exact absurd hexpects.need_le (by omega)
  have hframes := h.agrees.lanes t
  rw [hflight, List.map_nil, lane_nil, waiting_eq_nil (hidle t.1), List.append_nil, Ghost.frames,
    eq_comm, List.append_eq_nil_iff] at hframes
  have hpending : g.pending t = [] := by
    apply List.eq_nil_iff_forall_not_mem.mpr
    intro x hx
    obtain ⟨f, hf⟩ := List.exists_mem_of_ne_nil _ (h.agrees.pending t x hx).carries.ne_nil
    exact List.not_mem_nil (hframes.2 ▸ List.mem_flatMap.mpr ⟨x, hx, hf⟩)
  have hopened : g.openedIn t = none := by
    cases hopened : g.openedIn t with
    | none => rfl
    | some o =>
        rw [hopened] at hframes
        exact absurd hframes.1 (h.agrees.opened _ o (openedIn_eq_some hopened).2).rest_ne_nil
  rw [h.agrees.history t, Ghost.packets, hopened, hpending]
  exact (List.append_nil _).symm

/-- All that was added has arrived once nothing waits and the wire is empty. -/
theorem Valid.perm (h : l.Valid others flight g)
    (hidle : ∀ p, ¬ l.sender.isActiveProtocol p) (hwire : l.wire = []) :
    l.received.Perm
      ((l.added.filter fun entry => entry.2.payload ≠ []).map fun entry => entry.2.plain) := by
  rw [h.agrees.received]
  apply List.Perm.map
  apply perm_of_lane
  intro t
  rw [h.arrived hidle hwire t]
  exact (lane_filter fun packet : Packet => decide (packet.payload ≠ [])).symm

/-- In every state in which no frame waits and the wire is empty, exactly the packets
with a payload that were added have come out. -/
theorem received_perm (hciphers : Agreed ciphers) (hsub : protocols ⊆ others)
    (h : Reachable Allows ciphers protocols others l)
    (hidle : ∀ p, ¬ l.sender.isActiveProtocol p) (hwire : l.wire = []) :
    l.received.Perm
      ((l.added.filter fun entry => entry.2.payload ≠ []).map fun entry => entry.2.plain) := by
  obtain ⟨flight, g, hvalid⟩ := h.valid hciphers hsub fun _ _ => id
  exact hvalid.perm hidle hwire

/-! ## Draining -/

omit [Aes] [Sha3] in
/-- Adding on a link is a step of its sender. -/
theorem sender_add (l : Link) (packet : Packet) :
    (l.add packet).sender = l.sender.step (.add packet) := by
  rw [add, Sending.step]
  rcases outcome (addPacket packet) l.sender with ⟨_ | _, _⟩ <;>
    rcases queueFor l.sender packet with _ | _ <;> rfl

theorem pop_keeps (l : Link) : l.pop.sender = l.sender.step .pop ∧ l.pop.added = l.added := by
  rw [pop, Sending.step]
  rcases outcome popFrames l.sender with ⟨_ | frames, _⟩
  · exact ⟨rfl, rfl⟩
  · dsimp only
    rcases outcome (Frame.bytesOf frames) l.egress with ⟨_ | _, _⟩ <;> exact ⟨rfl, rfl⟩

theorem deliver_keeps (l : Link) (size : ℕ) : (l.deliver size).sender = l.sender ∧
    (l.deliver size).wire = l.wire.drop size ∧ (l.deliver size).added = l.added := by
  rw [deliver]
  rcases outcome (Receiving.decode (l.wire.take size)) l.receiver with ⟨_ | _, _⟩ <;>
    exact ⟨rfl, rfl, rfl⟩

/-- In a run that divides the window no queue is blocked. -/
theorem Reachable.flows (hciphers : Agreed ciphers) (hsub : protocols ⊆ others)
    (hallows : ∀ l event, allows l event → l.Allows event ∧ l.Divides event)
    (h : Reachable allows ciphers protocols others l) : ∃ active, l.sender.Flows active := by
  induction h with
  | start => exact ⟨[], (Multiplexer.registered_fresh _ protocols).1.flows⟩
  | @step l event h hallow ih =>
      obtain ⟨active, hflows⟩ := ih
      obtain ⟨_, _, hvalid⟩ :=
        h.valid hciphers hsub fun l event hallow => (hallows l event hallow).1
      cases event with
      | add packet =>
          rw [Link.step, sender_add]
          exact hflows.add hvalid.rotates (hallows _ _ hallow).2
      | pop =>
          rw [Link.step, (pop_keeps l).1]
          exact hflows.pop hvalid.rotates
      | deliver size =>
          rw [Link.step, (deliver_keeps l size).1]
          exact ⟨active, hflows⟩

/-- As many turns as frames wait empty all queues. -/
theorem Valid.pops (h : l.Valid others flight g) {active : List ℕ} (hflows : l.sender.Flows active)
    {n : ℕ} (hn : l.sender.numFrames ≤ n) : ∃ flight', (Link.pop^[n] l).Valid others flight' g ∧
      (∀ p, ¬ (Link.pop^[n] l).sender.isActiveProtocol p) ∧ (Link.pop^[n] l).added = l.added := by
  induction n generalizing l flight active with
  | zero =>
      exact ⟨flight, h, (numFrames_eq_zero_iff h.rotates.nodup).mp (Nat.le_zero.mp hn), rfl⟩
  | succ n ih =>
      obtain ⟨flight', h', -⟩ := h.pop
      obtain ⟨hsender, hadded⟩ := pop_keeps l
      obtain ⟨active', hflows'⟩ := hflows.pop h.rotates
      rw [← hsender] at hflows'
      have hle : l.pop.sender.numFrames ≤ n := by
        rw [hsender]
        by_cases hne : l.sender.protocols = []
        · rw [Sending.step, popFrames_of_nil hne, numFrames, List.map_eq_nil_iff.mp hne]
          exact Nat.zero_le n
        · obtain ⟨frames, _, -, rfl, hnum, hnil⟩ := hflows.popFrames h.rotates hne
          by_cases hframes : frames = []
          · have hzero := (numFrames_eq_zero_iff h.rotates.nodup).mpr (hnil.mp hframes)
            omega
          · have hpos := List.length_pos_iff.mpr hframes
            omega
      rw [Function.iterate_succ_apply, ← hadded]
      exact ih h' hflows' hle

/-- While every add leaves the window divided: after as many pops as frames wait, and
when the wire is decoded, everything has arrived, in each queue in the order in which
it was added. -/
theorem all_arrive (hciphers : Agreed ciphers) (hsub : protocols ⊆ others)
    (h : Reachable (fun l event => l.Allows event ∧ l.Divides event) ciphers protocols others l)
    {n : ℕ} (hn : l.sender.numFrames ≤ n) :
    ∃ arrived : List (Lane × Packet),
      ((pop^[n] l).deliver (pop^[n] l).wire.length).received =
        arrived.map (fun entry => entry.2.plain) ∧
      ∀ t, lane t arrived = (lane t l.added).filter (·.payload ≠ []) := by
  obtain ⟨flight, g, hvalid⟩ := h.valid hciphers hsub fun _ _ => And.left
  obtain ⟨active, hflows⟩ := h.flows hciphers hsub fun _ _ => id
  obtain ⟨flight', hvalid', hidle, hadded⟩ := hvalid.pops hflows hn
  obtain ⟨_, _, _, g', -, hend⟩ := hvalid'.deliver (pop^[n] l).wire.length
  obtain ⟨hsender, hwire, hadded'⟩ := deliver_keeps (pop^[n] l) (pop^[n] l).wire.length
  refine ⟨g'.arrived, hend.agrees.received, fun t => ?_⟩
  rw [hend.arrived (hsender ▸ hidle) (hwire.trans List.drop_length) t, hadded', hadded]

/-! ## Where nothing is on its way -/

/-- A frame that is written has its size. -/
theorem length_of_asBytes {f : Frame} {cipher cipher' : Option FrameCipher} {bytes : Bytes}
    (h : outcome f.asBytes cipher = (.ok bytes, cipher')) : bytes.length = f.frameSize := by
  rw [Frame.asBytes, outcome_bind, outcome_get] at h
  cases cipher with
  | none =>
      have hplain : f.plainBytes = .ok bytes := congrArg Prod.fst h
      obtain ⟨header, -, hplain⟩ := Except.bind_eq_ok.mp hplain
      rw [require_bind_eq_ok, require_bind_eq_ok] at hplain
      exact Except.ok.inj hplain.2.2 ▸ hplain.2.1
  | some c =>
      dsimp only at h
      obtain ⟨header, _, -, h⟩ := outcome_bind_eq_ok.mp h
      obtain ⟨e, _, -, h⟩ := outcome_bind_eq_ok.mp h
      obtain ⟨_, _, hrequire, h⟩ := outcome_bind_eq_ok.mp h
      obtain rfl : e = bytes := Except.ok.inj (congrArg Prod.fst h)
      rw [outcome_ofExcept, require] at hrequire
      split_ifs at hrequire with hlength
      · exact hlength
      · exact absurd (congrArg Prod.fst hrequire) error_ne_ok

theorem bytesOf_eq_nil {frames : List Frame} {cipher cipher' : Option FrameCipher}
    (h : outcome (Frame.bytesOf frames) cipher = (.ok [], cipher')) : frames = [] := by
  cases frames with
  | nil => rfl
  | cons f frames =>
      obtain ⟨bytes, c, hf, h⟩ := outcome_bind_eq_ok.mp h
      obtain ⟨more, c', -, h⟩ := outcome_bind_eq_ok.mp h
      have hnil := (List.append_eq_nil_iff.mp (Except.ok.inj (congrArg Prod.fst h))).1
      have hpos := f.frameSize_pos
      rw [← length_of_asBytes hf, hnil] at hpos
      exact absurd hpos (Nat.lt_irrefl 0)

/-- A packet of a protocol of which no frame waits may be added while the wire is empty. -/
theorem allows_of_idle {packet : Packet} (hidle : ¬ l.sender.isActiveProtocol packet.protocolId)
    (hwire : l.receiver.decodeBuffer ++ l.wire = [])
    (hbuffers : l.receiver.chunkedBuffers.lookup packet.protocolId = some [])
    (hlength : packet.payload.length + 2 < 2 ^ 32) : l.Allows (.add packet) := by
  refine ⟨hlength, fun sid _ hunderway => ?_⟩
  rcases hunderway with
    ⟨f, hf | ⟨⟨egress, flight, hbytes, hf⟩, -⟩, -⟩ | ⟨chunkbuf, hchunkbuf, hsid⟩
  · exact hidle (isActiveProtocol_iff.mpr ⟨f, hf⟩)
  · rw [hwire] at hbytes
    rw [bytesOf_eq_nil hbytes] at hf
    exact List.not_mem_nil hf
  · obtain rfl := Option.some.inj (hbuffers.symm.trans hchunkbuf)
    exact List.not_mem_nil hsid

omit [Aes] [Sha3] in
/-- A packet that is taken goes to its queue. -/
theorem added_add {packet : Packet} {name : QueueName}
    (hadd : (outcome (addPacket packet) l.sender).1 = .ok ())
    (hqueue : queueFor l.sender packet = .ok name) :
    (l.add packet).added = l.added ++ [((packet.protocolId, name), packet)] := by
  rw [add, hqueue]
  rcases hout : outcome (addPacket packet) l.sender with ⟨_ | _, _⟩
  · rw [hout] at hadd
    exact absurd hadd error_ne_ok
  · rfl

omit [Aes] [Sha3] in
theorem add_keeps (l : Link) (packet : Packet) : (l.add packet).wire = l.wire ∧
    (l.add packet).receiver = l.receiver := by
  rw [add]
  rcases outcome (addPacket packet) l.sender with ⟨_ | _, _⟩ <;>
    rcases queueFor l.sender packet with _ | _ <;> exact ⟨rfl, rfl⟩

/-- More steps allowed, more runs. -/
theorem Reachable.mono {allows' : Link → Event → Prop}
    (hallows : ∀ l event, allows l event → allows' l event)
    (h : Reachable allows ciphers protocols others l) :
    Reachable allows' ciphers protocols others l := by
  induction h with
  | start => exact .start
  | step _ hallow ih => exact ih.step (hallows _ _ hallow)

end Link

end Interleaving

namespace Link

section Witness

attribute [local instance] shortRlp rijndaelAes keccakSha3

def small : Packet := ⟨2, 0, [5], false⟩

/-- A packet of three frames when it has half of the window. -/
def large : Packet := ⟨1, 0, List.replicate 9000 7, false⟩

/-- The two sides of a handshake. -/
def sessions : Option (RLPxSession × RLPxSession) := some (sessionOf true, sessionOf false)

theorem agreed_sessions : Agreed sessions := by
  rintro _ ⟨⟩
  exact sameHandshake_sessionOf

def queued : Link := ((start sessions [1, 2] [1, 2]).step (.add small)).step (.add large)

/-- The first frame is on the wire, and the first bytes of it are decoded. -/
def midway : Link := (queued.step .pop).step (.deliver 100)

/-- All frames are on the wire. -/
def popped : Link := (midway.step .pop).step .pop

/-- All bytes of the wire are decoded. -/
def finished : Link := popped.step (.deliver popped.wire.length)

/-- The senders of the steps have no part in the ciphers. -/
def sending : Sending :=
  (((Multiplexer.registered none [1, 2]).step (.add small)).step (.add large)).step .pop

theorem queued_sender : queued.sender.step .pop = sending := by
  rw [sending, queued, step, sender_add, step, sender_add]
  rfl

theorem midway_sender : midway.sender = sending := by
  simp only [midway, step, deliver_keeps, pop_keeps, queued_sender]

theorem queued_added : queued.added = [((2, .normal), small), ((1, .chunked), large)] := by
  have hsender : ((start sessions [1, 2] [1, 2]).step (.add small)).sender =
      (Multiplexer.registered none [1, 2]).step (.add small) := sender_add _ _
  have hsmall : ((start sessions [1, 2] [1, 2]).step (.add small)).added =
      [((2, .normal), small)] := added_add (by decide +kernel) (by decide +kernel)
  have hadd : (outcome (addPacket large)
      ((start sessions [1, 2] [1, 2]).step (.add small)).sender).1 = .ok () := by
    rw [hsender]
    decide +kernel
  have hqueue : queueFor ((start sessions [1, 2] [1, 2]).step (.add small)).sender large =
      .ok .chunked := by
    rw [hsender]
    decide +kernel
  have hlarge := added_add hadd hqueue
  rw [hsmall] at hlarge
  exact hlarge

theorem midway_added : midway.added = [((2, .normal), small), ((1, .chunked), large)] := by
  simp only [midway, step, deliver_keeps, pop_keeps, queued_added]

theorem midway_reachable : Reachable (fun l event => l.Allows event ∧ l.Divides event)
    sessions [1, 2] [1, 2] midway := by
  have hsmall : (start sessions [1, 2] [1, 2]).Allows (.add small) :=
    allows_of_idle (by decide +kernel) rfl rfl (by decide)
  have hlarge : ((start sessions [1, 2] [1, 2]).step (.add small)).Allows (.add large) := by
    obtain ⟨hwire, hreceiver⟩ := add_keeps (start sessions [1, 2] [1, 2]) small
    apply allows_of_idle
    · rw [step, sender_add]
      decide +kernel
    · rw [step, hwire, hreceiver]
      rfl
    · rw [step, hreceiver]
      rfl
    · change (List.replicate 9000 (7 : UInt8)).length + 2 < 2 ^ 32
      rw [List.length_replicate]
      norm_num
  have hfirst : Reachable (fun l event => l.Allows event ∧ l.Divides event) sessions [1, 2] [1, 2]
      ((start sessions [1, 2] [1, 2]).step (.add small)) :=
    .step .start ⟨hsmall, fun h => absurd h (by decide)⟩
  have hqueued : Reachable (fun l event => l.Allows event ∧ l.Divides event) sessions [1, 2] [1, 2]
      queued := .step hfirst ⟨hlarge, fun h => absurd h Nat.one_ne_zero⟩
  have hpopped : Reachable (fun l event => l.Allows event ∧ l.Divides event) sessions [1, 2] [1, 2]
      (queued.step .pop) := .step hqueued ⟨trivial, trivial⟩
  exact .step hpopped ⟨trivial, trivial⟩

theorem finished_reachable : Reachable Allows sessions [1, 2] [1, 2] finished := by
  have hmidway : Reachable Allows sessions [1, 2] [1, 2] midway :=
    midway_reachable.mono fun _ _ h => h.1
  have hpopped : Reachable Allows sessions [1, 2] [1, 2] popped :=
    .step (.step hmidway trivial) trivial
  have hallows : popped.Allows (.deliver popped.wire.length) := trivial
  exact hpopped.step hallows

theorem finished_wire : finished.wire = [] := by
  simp only [finished, step, deliver_keeps, List.drop_length]

theorem finished_idle (p : ℕ) : ¬ finished.sender.isActiveProtocol p := by
  obtain ⟨_, _, hvalid⟩ := finished_reachable.valid agreed_sessions (List.Subset.refl _)
    fun _ _ => id
  have hsender : finished.sender = (sending.step .pop).step .pop := by
    simp only [finished, popped, step, deliver_keeps, pop_keeps, midway_sender]
  have hzero : finished.sender.numFrames = 0 := by
    rw [hsender]
    decide +kernel
  exact (numFrames_eq_zero_iff hvalid.rotates.nodup).mp hzero p

theorem finished_received : finished.received.Perm [small.plain, large.plain] := by
  obtain ⟨_, _, hvalid⟩ := finished_reachable.valid agreed_sessions (List.Subset.refl _)
    fun _ _ => id
  have hadded : finished.added = [((2, .normal), small), ((1, .chunked), large)] := by
    simp only [finished, popped, step, deliver_keeps, pop_keeps, midway_added]
  have hperm := hvalid.perm finished_idle finished_wire
  have hlarge : large.payload ≠ [] := List.cons_ne_nil _ _
  have hsmall : small.payload ≠ [] := List.cons_ne_nil _ _
  rw [hadded, List.filter_cons_of_pos (by exact decide_eq_true hsmall),
    List.filter_cons_of_pos (by exact decide_eq_true hlarge)] at hperm
  exact hperm

/-- Two protocols, encryption, a packet in three frames and a cut in the first of them. -/
theorem in_order_finished :
    ((∀ frames s', outcome popFrames finished.sender = (.ok frames, s') →
        ∃ bytes egress, outcome (Frame.bytesOf frames) finished.egress = (.ok bytes, egress)) ∧
      (∀ size, ∃ packets r,
        outcome (Receiving.decode (finished.wire.take size)) finished.receiver =
          (.ok packets, r)) ∧
      ∃ arrived : List (Lane × Packet),
        finished.received = arrived.map (fun entry => entry.2.plain) ∧
        ∀ t, lane t arrived <+: (lane t finished.added).filter (·.payload ≠ [])) ∧
      finished.received.Perm [small.plain, large.plain] :=
  ⟨in_order agreed_sessions (List.Subset.refl _) finished_reachable, finished_received⟩

theorem received_perm_finished :
    finished.received.Perm
        ((finished.added.filter fun entry => entry.2.payload ≠ []).map
          fun entry => entry.2.plain) ∧
      finished.received.Perm [small.plain, large.plain] :=
  ⟨received_perm agreed_sessions (List.Subset.refl _) finished_reachable finished_idle
    finished_wire, finished_received⟩

theorem all_arrive_midway :
    (∃ arrived : List (Lane × Packet),
      ((pop^[3] midway).deliver (pop^[3] midway).wire.length).received =
        arrived.map (fun entry => entry.2.plain) ∧
      ∀ t, lane t arrived = (lane t midway.added).filter (·.payload ≠ [])) ∧
      midway.added = [((2, .normal), small), ((1, .chunked), large)] :=
  ⟨all_arrive agreed_sessions (List.Subset.refl _) midway_reachable
    (by rw [midway_sender]; decide +kernel), midway_added⟩

end Witness

end Link

end Hgfrr.Multiplexing
