import Hgfrr.Multiplexer.Link

/-!
# Delivery

What is on its way between two multiplexers agrees with what was added: in each
queue of a protocol the frames of a packet that is partly received come first, and
then the frames of packets of which nothing is received. Every step keeps this.
-/

namespace Hgfrr.Multiplexing

open Effects Lanes Sending

variable [Rlp]

/-- A packet with its sequence id and its frames. -/
structure Sealed where
  packet : Packet
  sid : ℕ
  frames : List Frame

/-- A packet that is partly received: its payload so far and the frames to come. -/
structure Opened where
  packet : Packet
  sid : ℕ
  payload : Bytes
  rest : List Frame

/-- What is not to be seen in the state: the packets of which nothing is received, the
partly received packet of each protocol, and the packets received with their queues. -/
structure Ghost where
  pending : Lane → List Sealed
  opened : ℕ → Option Opened
  arrived : List (Lane × Packet)

structure Sealed.Valid (known : ℕ → Prop) (t : Lane) (x : Sealed) : Prop where
  known : known t.1
  protocolId : x.packet.protocolId = t.1
  carries : Carries x.packet x.sid x.frames
  sendable : ∀ f ∈ x.frames, f.Sendable x.sid
  single : t.2 ≠ .chunked → x.frames.length = 1

structure Opened.Valid (known : ℕ → Prop) (p : ℕ) (o : Opened) : Prop where
  known : known p
  protocolId : o.packet.protocolId = p
  rest_ne_nil : o.rest ≠ []
  chunks : ∀ f ∈ o.rest, (packetFrame o.packet o.sid).IsChunk f ∧ f.Sendable o.sid
  payload : o.payload ++ o.rest.flatMap Frame.payload = o.packet.payload

/-- The buffer of a partly received packet. -/
def Opened.buffer (o : Opened) : List (ℕ × ChunkedPacket) :=
  [(o.sid, ⟨⟨o.packet.protocolId, o.packet.cmdId, o.payload, false⟩, o.packet.payload.length⟩)]

namespace Ghost

/-- The partly received packet of a queue. -/
def openedIn (g : Ghost) : Lane → Option Opened
  | (p, .chunked) => g.opened p
  | (_, .normal) => none
  | (_, .priority) => none

/-- The frames that are to come from a queue. -/
def frames (g : Ghost) (t : Lane) : List Frame :=
  (g.openedIn t).elim [] Opened.rest ++ (g.pending t).flatMap Sealed.frames

/-- The packets that are to come from a queue. -/
def packets (g : Ghost) (t : Lane) : List Packet :=
  ((g.openedIn t).map Opened.packet).toList ++ (g.pending t).map Sealed.packet

/-- Nothing is on its way or received. -/
def empty : Ghost := ⟨fun _ => [], fun _ => none, []⟩

/-- The first pending packet of a queue is taken. -/
def shift (g : Ghost) (t : Lane) : Ghost :=
  { g with pending := Function.update g.pending t (g.pending t).tail }

def setOpened (g : Ghost) (p : ℕ) (o : Option Opened) : Ghost :=
  { g with opened := Function.update g.opened p o }

/-- A packet is received, if it has a payload. -/
def arrive (g : Ghost) (t : Lane) (packet : Packet) : Ghost :=
  { g with arrived := g.arrived ++ if packet.payload = [] then [] else [(t, packet)] }

/-- The sequence ids of a protocol in use. The partly received packet was the first
of its queue. -/
def sids (g : Ghost) (p : ℕ) : List ℕ :=
  ((g.opened p).map Opened.sid).toList ++ (g.pending (p, .chunked)).map Sealed.sid ++
    (g.pending (p, .normal)).map Sealed.sid ++ (g.pending (p, .priority)).map Sealed.sid

end Ghost

/-- What is on its way: the frames in the queues and in flight, the buffers and the
packets that were received. -/
structure Agrees (known : ℕ → Prop) (queue : Lane → List Frame) (added : List (Lane × Packet))
    (flight : List (Lane × Frame)) (buffers : ChunkedBuffers) (received : List Packet)
    (g : Ghost) : Prop where
  pending : ∀ t, ∀ x ∈ g.pending t, x.Valid known t
  opened : ∀ p, ∀ o ∈ g.opened p, o.Valid known p
  lanes : ∀ t, lane t flight ++ queue t = g.frames t
  buffers : ∀ p, known p → buffers.lookup p = some ((g.opened p).elim [] Opened.buffer)
  sids : ∀ p, (g.sids p).Nodup
  history : ∀ t, (lane t added).filter (·.payload ≠ []) =
    lane t g.arrived ++ (g.packets t).filter (·.payload ≠ [])
  received : received = g.arrived.map fun entry => entry.2.plain

variable {known : ℕ → Prop} {queue queue' : Lane → List Frame} {added : List (Lane × Packet)}
  {flight : List (Lane × Frame)} {buffers : ChunkedBuffers} {received : List Packet} {g : Ghost}
  {t : Lane} {f : Frame}

omit [Rlp] in
theorem mem_sids_of_pending {x : Sealed} (h : x ∈ g.pending t) : x.sid ∈ g.sids t.1 := by
  have hmem := List.mem_map_of_mem (f := Sealed.sid) h
  obtain ⟨p, name⟩ := t
  rw [Ghost.sids]
  cases name with
  | priority => exact List.mem_append_right _ hmem
  | normal => exact List.mem_append_left _ (List.mem_append_right _ hmem)
  | chunked => exact List.mem_append_left _ (List.mem_append_left _ (List.mem_append_right _ hmem))

omit [Rlp] in
theorem mem_sids_of_opened {p : ℕ} {o : Opened} (h : g.opened p = some o) :
    o.sid ∈ g.sids p := by
  rw [Ghost.sids, h]
  exact List.mem_cons_self

omit [Rlp] in
theorem openedIn_eq_some {o : Opened} (h : g.openedIn t = some o) :
    t.2 = .chunked ∧ g.opened t.1 = some o := by
  obtain ⟨p, name⟩ := t
  cases name with
  | priority => exact absurd h.symm (Option.some_ne_none o)
  | normal => exact absurd h.symm (Option.some_ne_none o)
  | chunked => exact ⟨rfl, h⟩

/-- A frame on its way belongs to a packet that is partly received or pending. -/
theorem Agrees.frame (h : Agrees known queue added flight buffers received g)
    (hf : f ∈ lane t flight ++ queue t) :
    f.protocolId = t.1 ∧ ∃ sid ∈ g.sids t.1, f.Sendable sid := by
  rw [h.lanes, Ghost.frames] at hf
  rcases List.mem_append.mp hf with hf | hf
  · cases hopened : g.openedIn t with
    | none =>
        rw [hopened] at hf
        exact absurd hf List.not_mem_nil
    | some o =>
        rw [hopened] at hf
        obtain ⟨-, ho⟩ := openedIn_eq_some hopened
        have hvalid := h.opened _ _ ho
        obtain ⟨hchunk, hsend⟩ := hvalid.chunks f hf
        exact ⟨hchunk.protocolId.trans hvalid.protocolId, o.sid, mem_sids_of_opened ho, hsend⟩
  · obtain ⟨x, hx, hf⟩ := List.mem_flatMap.mp hf
    have hvalid := h.pending t x hx
    exact ⟨(hvalid.carries.ids hf).1.trans hvalid.protocolId, x.sid, mem_sids_of_pending hx,
      hvalid.sendable f hf⟩

/-! ## One frame -/

/-- The first frame in flight is gone. -/
theorem Agrees.advance {g' : Ghost} {buffers' : ChunkedBuffers} {received' : List Packet}
    (h : Agrees known queue added ((t, f) :: flight) buffers received g)
    (hpending : ∀ t' ≠ t, g'.pending t' = g.pending t')
    (hopened : ∀ t' ≠ t, g'.openedIn t' = g.openedIn t')
    (hsub : (g'.pending t).Sublist (g.pending t))
    (hvalid : ∀ o ∈ g'.openedIn t, o.Valid known t.1)
    (hframes : g.frames t = f :: g'.frames t)
    (hbuffers : ∀ p, known p →
      buffers'.lookup p = some ((g'.opened p).elim [] Opened.buffer))
    (hsids : (g'.sids t.1).Sublist (g.sids t.1))
    (hlanes : ∀ t' ≠ t, lane t' g'.arrived = lane t' g.arrived)
    (hpackets : lane t g.arrived ++ (g.packets t).filter (·.payload ≠ []) =
      lane t g'.arrived ++ (g'.packets t).filter (·.payload ≠ []))
    (hreceived : received' = g'.arrived.map fun entry => entry.2.plain) :
    Agrees known queue added flight buffers' received' g' := by
  refine ⟨fun t' x hx => ?_, fun p o ho => ?_, fun t' => ?_, hbuffers, fun p => ?_, fun t' => ?_,
    hreceived⟩
  · by_cases ht : t' = t
    · subst ht
      exact h.pending t' x (hsub.subset hx)
    · exact h.pending t' x (hpending t' ht ▸ hx)
  · by_cases ht : (p, QueueName.chunked) = t
    · subst ht
      exact hvalid o ho
    · exact h.opened p o ((hopened _ ht).symm.trans ho)
  · by_cases ht : t' = t
    · subst ht
      have hself := h.lanes t'
      rw [hframes, lane_cons_self, List.cons_append] at hself
      exact (List.cons.inj hself).2
    -- the other lanes have the same frames as before
    · have hother := h.lanes t'
      rwa [lane_cons_of_ne (Ne.symm ht), Ghost.frames, ← hpending t' ht, ← hopened t' ht] at hother
  · by_cases hp : p = t.1
    · subst hp
      exact (h.sids _).sublist hsids
    · have hne : ∀ name, (p, name) ≠ t := fun name heq => hp (heq ▸ rfl)
      have hother := h.sids p
      rwa [Ghost.sids, ← hpending _ (hne _), ← hpending _ (hne _), ← hpending _ (hne _),
        show g.opened p = g'.opened p from (hopened _ (hne .chunked)).symm] at hother
  · by_cases ht : t' = t
    · subst ht
      rw [h.history, hpackets]
    · rw [h.history, hlanes t' ht, Ghost.packets, Ghost.packets, hpending t' ht, hopened t' ht]

omit [Rlp] in
theorem lane_arrive_of_ne {t' : Lane} (ht : t' ≠ t) (packet : Packet) :
    lane t' (g.arrive t packet).arrived = lane t' g.arrived := by
  rw [Ghost.arrive, lane_append]
  split
  next => rw [lane_nil, List.append_nil]
  next => rw [lane_cons_of_ne (Ne.symm ht), lane_nil, List.append_nil]

omit [Rlp] in
theorem filter_singleton (packet : Packet) : [packet].filter (·.payload ≠ []) =
    if packet.payload = [] then [] else [packet] := by
  split
  next h => simp [h]
  next h => simp [h]

omit [Rlp] in
theorem lane_arrive (packet : Packet) :
    lane t (g.arrive t packet).arrived =
      lane t g.arrived ++ [packet].filter (·.payload ≠ []) := by
  rw [Ghost.arrive, lane_append, filter_singleton]
  split
  next => rfl
  next => rw [lane_cons_self, lane_nil]

omit [Rlp] in
theorem map_arrive (packet : Packet) :
    (g.arrive t packet).arrived.map (fun entry => entry.2.plain) =
      g.arrived.map (fun entry => entry.2.plain) ++ [packet.plain].filter (·.payload ≠ []) := by
  rw [Ghost.arrive, List.map_append, filter_singleton, show packet.plain.payload =
    packet.payload from rfl]
  split <;> rfl

omit [Rlp] in
theorem sids_sublist {g' : Ghost} {p : ℕ}
    (hopened : ((g'.opened p).map Opened.sid).toList.Sublist
      ((g.opened p).map Opened.sid).toList)
    (hpending : ∀ t, (g'.pending t).Sublist (g.pending t)) : (g'.sids p).Sublist (g.sids p) :=
  ((hopened.append ((hpending _).map _)).append ((hpending _).map _)).append ((hpending _).map _)

/-- A packet of one frame. -/
theorem Agrees.normal {x : Sealed} {more : List Sealed}
    (h : Agrees known queue added ((t, f) :: flight) buffers received g)
    (hopened : g.openedIn t = none) (hpending : g.pending t = x :: more)
    (hframes : x.frames = [f]) :
    Agrees known queue added flight buffers
      (received ++ [x.packet.plain].filter (·.payload ≠ [])) ((g.shift t).arrive t x.packet) := by
  have hshift : (g.shift t).pending t = more := by
    show Function.update g.pending t (g.pending t).tail t = more
    rw [Function.update_self, hpending, List.tail_cons]
  apply h.advance
  · exact fun t' ht => Function.update_of_ne ht _ _
  · exact fun t' _ => rfl
  · rw [hpending]
    exact hshift ▸ List.sublist_cons_self _ _
  · intro o ho
    exact absurd (hopened.symm.trans ho) (Option.some_ne_none o).symm
  · show (g.openedIn t).elim [] Opened.rest ++ (g.pending t).flatMap Sealed.frames =
      f :: ((g.openedIn t).elim [] Opened.rest ++ ((g.shift t).pending t).flatMap Sealed.frames)
    rw [hopened, hpending, hshift, List.flatMap_cons, hframes]
    rfl
  · exact h.buffers
  · refine sids_sublist ?_ fun t' => ?_
    · exact List.Sublist.refl _
    by_cases ht : t' = t
    · rw [ht, hpending]
      exact hshift ▸ List.sublist_cons_self _ _
    · exact (Function.update_of_ne ht _ _ : (g.shift t).pending t' = g.pending t') ▸
        List.Sublist.refl _
  · exact fun t' ht => lane_arrive_of_ne (g := g.shift t) ht x.packet
  · show _ ++ (((g.openedIn t).map Opened.packet).toList ++
        (g.pending t).map Sealed.packet).filter _ =
      _ ++ (((g.openedIn t).map Opened.packet).toList ++
        ((g.shift t).pending t).map Sealed.packet).filter _
    rw [lane_arrive, hopened, hpending, hshift, List.append_assoc, List.map_cons,
      ← List.filter_append]
    rfl
  · rw [map_arrive, h.received]
    rfl

omit [Rlp] in
theorem opened_setOpened (p : ℕ) (o : Option Opened) : (g.setOpened p o).opened p = o :=
  Function.update_self ..

omit [Rlp] in
theorem openedIn_setOpened_of_ne {p : ℕ} {t' : Lane} (ht : t' ≠ (p, .chunked))
    (o : Option Opened) : (g.setOpened p o).openedIn t' = g.openedIn t' := by
  obtain ⟨q, name⟩ := t'
  cases name with
  | priority => rfl
  | normal => rfl
  | chunked => exact Function.update_of_ne (fun hq : q = p => ht (by rw [hq])) _ _

omit [Rlp] in
/-- The buffers after those of a protocol were changed. -/
theorem lookup_assign_buffers {p : ℕ} {o : Option Opened} {chunkbuf : List (ℕ × ChunkedPacket)}
    (hbuffers : ∀ q, known q → buffers.lookup q = some ((g.opened q).elim [] Opened.buffer))
    (hchunkbuf : chunkbuf = o.elim [] Opened.buffer) (q : ℕ) (hq : known q) :
    (AssocMap.assign p chunkbuf buffers).lookup q =
      some (((g.setOpened p o).opened q).elim [] Opened.buffer) := by
  by_cases heq : q = p
  · rw [heq, AssocMap.lookup_assign_self, opened_setOpened, hchunkbuf]
  · rw [AssocMap.lookup_assign_of_ne heq, hbuffers q hq]
    exact congrArg (fun o : Option Opened => some (o.elim [] Opened.buffer))
      (Function.update_of_ne heq _ _).symm

/-- The first frame of a packet of several. -/
theorem Agrees.chunked0 {p : ℕ} {x : Sealed} {more : List Sealed} {rest : List Frame}
    (h : Agrees known queue added (((p, .chunked), f) :: flight) buffers received g)
    (hopened : g.opened p = none) (hpending : g.pending (p, .chunked) = x :: more)
    (hframes : x.frames = f :: rest)
    (hvalid : Opened.Valid known p ⟨x.packet, x.sid, f.payload, rest⟩) :
    Agrees known queue added flight
      (AssocMap.assign p (Opened.buffer ⟨x.packet, x.sid, f.payload, rest⟩) buffers) received
      ((g.shift (p, .chunked)).setOpened p (some ⟨x.packet, x.sid, f.payload, rest⟩)) := by
  have hshift : (g.shift (p, .chunked)).pending (p, .chunked) = more := by
    show Function.update g.pending (p, .chunked) (g.pending (p, .chunked)).tail (p, .chunked) = more
    rw [Function.update_self, hpending, List.tail_cons]
  have hsame : ∀ t' ≠ (p, QueueName.chunked),
      (g.shift (p, .chunked)).pending t' = g.pending t' :=
    fun t' ht => Function.update_of_ne ht _ _
  apply h.advance
  · exact hsame
  · exact fun t' ht => openedIn_setOpened_of_ne (g := g.shift (p, .chunked)) ht _
  · rw [hpending]
    exact hshift ▸ List.sublist_cons_self _ _
  · intro o ho
    obtain rfl := Option.some.inj ((opened_setOpened p _).symm.trans ho)
    exact hvalid
  · show (g.opened p).elim [] Opened.rest ++ (g.pending (p, .chunked)).flatMap Sealed.frames =
      f :: (((g.shift (p, .chunked)).setOpened p _).opened p).elim [] Opened.rest ++
        ((g.shift (p, .chunked)).pending (p, .chunked)).flatMap Sealed.frames
    rw [opened_setOpened, hopened, hpending, hshift, List.flatMap_cons, hframes]
    rfl
  · exact lookup_assign_buffers (g := g.shift (p, .chunked)) h.buffers rfl
  · -- the sequence id goes from the first pending packet to the one that is opened
    have hsids : ((g.shift (p, .chunked)).setOpened p
        (some ⟨x.packet, x.sid, f.payload, rest⟩)).sids p = g.sids p := by
      show (((((g.shift (p, .chunked)).setOpened p _).opened p).map Opened.sid).toList ++
          ((g.shift (p, .chunked)).pending (p, .chunked)).map Sealed.sid ++
          ((g.shift (p, .chunked)).pending (p, .normal)).map Sealed.sid) ++
          ((g.shift (p, .chunked)).pending (p, .priority)).map Sealed.sid = g.sids p
      rw [opened_setOpened, hshift, hsame _ (by simp), hsame _ (by simp), Ghost.sids, hopened,
        hpending]
      rfl
    exact hsids ▸ List.Sublist.refl _
  · exact fun t' _ => rfl
  · show _ ++ (((g.opened p).map Opened.packet).toList ++
        (g.pending (p, .chunked)).map Sealed.packet).filter _ =
      _ ++ (((((g.shift (p, .chunked)).setOpened p _).opened p).map Opened.packet).toList ++
        ((g.shift (p, .chunked)).pending (p, .chunked)).map Sealed.packet).filter _
    rw [opened_setOpened, hopened, hpending, hshift]
    rfl
  · exact h.received

/-- A frame after the first, but not the last. -/
theorem Agrees.chunkedN {p : ℕ} {o : Opened} {rest : List Frame}
    (h : Agrees known queue added (((p, .chunked), f) :: flight) buffers received g)
    (hopened : g.opened p = some o) (hframes : o.rest = f :: rest)
    (hvalid : Opened.Valid known p ⟨o.packet, o.sid, o.payload ++ f.payload, rest⟩) :
    Agrees known queue added flight
      (AssocMap.assign p (Opened.buffer ⟨o.packet, o.sid, o.payload ++ f.payload, rest⟩) buffers)
      received (g.setOpened p (some ⟨o.packet, o.sid, o.payload ++ f.payload, rest⟩)) := by
  apply h.advance
  · exact fun t' _ => rfl
  · exact fun t' ht => openedIn_setOpened_of_ne ht _
  · exact List.Sublist.refl _
  · intro o' ho
    obtain rfl := Option.some.inj ((opened_setOpened p _).symm.trans ho)
    exact hvalid
  · show (g.opened p).elim [] Opened.rest ++ (g.pending (p, .chunked)).flatMap Sealed.frames =
      f :: ((g.setOpened p _).opened p).elim [] Opened.rest ++
        (g.pending (p, .chunked)).flatMap Sealed.frames
    rw [opened_setOpened, hopened]
    exact congrArg (· ++ _) hframes
  · exact lookup_assign_buffers h.buffers rfl
  · apply sids_sublist (g := g)
    · rw [opened_setOpened, hopened]
      exact List.Sublist.refl _
    · exact fun t' => List.Sublist.refl _
  · exact fun t' _ => rfl
  · show _ ++ (((g.opened p).map Opened.packet).toList ++ _).filter _ =
      _ ++ ((((g.setOpened p _).opened p).map Opened.packet).toList ++ _).filter _
    rw [opened_setOpened, hopened]
    rfl
  · exact h.received

/-- The last frame of a packet. -/
theorem Agrees.last {p : ℕ} {o : Opened}
    (h : Agrees known queue added (((p, .chunked), f) :: flight) buffers received g)
    (hopened : g.opened p = some o) (hframes : o.rest = [f]) :
    Agrees known queue added flight (AssocMap.assign p [] buffers)
      (received ++ [o.packet.plain].filter (·.payload ≠ []))
      ((g.setOpened p none).arrive (p, .chunked) o.packet) := by
  apply h.advance
  · exact fun t' _ => rfl
  · exact fun t' ht => openedIn_setOpened_of_ne ht none
  · exact List.Sublist.refl _
  · intro o' ho
    exact absurd ((opened_setOpened p none).symm.trans ho) (Option.some_ne_none o').symm
  · show (g.opened p).elim [] Opened.rest ++ (g.pending (p, .chunked)).flatMap Sealed.frames =
      f :: ((g.setOpened p none).opened p).elim [] Opened.rest ++
        (g.pending (p, .chunked)).flatMap Sealed.frames
    rw [opened_setOpened, hopened]
    exact congrArg (· ++ _) hframes
  · exact lookup_assign_buffers h.buffers rfl
  · apply sids_sublist (g := g)
    · show (((g.setOpened p none).opened p).map Opened.sid).toList.Sublist _
      rw [opened_setOpened]
      exact List.nil_sublist _
    · exact fun t' => List.Sublist.refl _
  · exact fun t' ht => lane_arrive_of_ne (g := g.setOpened p none) ht o.packet
  · show _ ++ (((g.opened p).map Opened.packet).toList ++
        (g.pending (p, .chunked)).map Sealed.packet).filter _ =
      _ ++ ((((g.setOpened p none).opened p).map Opened.packet).toList ++
        (g.pending (p, .chunked)).map Sealed.packet).filter _
    rw [lane_arrive, opened_setOpened, hopened, List.append_assoc, ← List.filter_append]
    rfl
  · rw [map_arrive, h.received]
    rfl

/-- The partly received packet has its own sequence id. -/
theorem Agrees.sid_ne {o : Opened} {x : Sealed}
    (h : Agrees known queue added flight buffers received g) (hopened : g.opened t.1 = some o)
    (hpending : x ∈ g.pending t) : o.sid ≠ x.sid := by
  have hnodup := h.sids t.1
  have hmem := List.mem_map_of_mem (f := Sealed.sid) hpending
  rw [Ghost.sids, hopened] at hnodup
  -- its id is the first of those in use
  have hnot := (List.nodup_cons.mp hnodup).1
  obtain ⟨p, name⟩ := t
  intro heq
  apply hnot
  rw [heq]
  cases name with
  | priority => exact List.mem_append_right _ hmem
  | normal => exact List.mem_append_left _ (List.mem_append_right _ hmem)
  | chunked => exact List.mem_append_left _ (List.mem_append_left _ hmem)

/-- No frame of a packet that is pending was received. -/
theorem Agrees.lookup_buffer {x : Sealed}
    (h : Agrees known queue added flight buffers received g) (hpending : x ∈ g.pending t) :
    ((g.opened t.1).elim [] Opened.buffer).lookup x.sid = none := by
  cases hopened : g.opened t.1 with
  | none => rfl
  | some o =>
      have hne := h.sid_ne hopened hpending
      show List.lookup x.sid (Opened.buffer o) = none
      rw [Opened.buffer, List.lookup_cons, beq_eq_false_iff_ne.mpr hne.symm]
      rfl

/-! ## Handling a frame -/

/-- The last frame of a packet completes it. -/
theorem Opened.Valid.handle_last {p : ℕ} {o : Opened} (h : o.Valid known p)
    (hbuffers : buffers.lookup p = some o.buffer) (hrest : o.rest = [f]) :
    f.build buffers =
      .ok (some o.packet.plain, AssocMap.assign p [] buffers) := by
  obtain ⟨hchunk, hsend⟩ := h.chunks f (hrest ▸ List.mem_singleton_self f)
  have hpayload := h.payload
  rw [hrest, List.flatMap_singleton] at hpayload
  have hprotocol : f.protocolId = p := hchunk.protocolId.trans h.protocolId
  have henc : f.encCmdId = [] := by rw [Frame.encCmdId, hchunk.isChunkedN, if_pos rfl]
  have hlookup : o.buffer.lookup o.sid =
      some ⟨⟨o.packet.protocolId, o.packet.cmdId, o.payload, false⟩, o.packet.payload.length⟩ :=
    List.lookup_cons_self
  rw [Frame.build, hsend.sequenceId, henc, List.nil_append, hprotocol,
    hchunk.totalPayloadSize, Decoding.buildPacket_last hbuffers hlookup (by rw [hpayload])]
  simp [Opened.buffer, Packet.plain, hpayload]

/-- A frame after the first, but not the last, goes to the buffer. -/
theorem Opened.Valid.handle_more {p : ℕ} {o : Opened} {rest : List Frame} (h : o.Valid known p)
    (hbuffers : buffers.lookup p = some o.buffer) (hrest : o.rest = f :: rest) (hne : rest ≠ []) :
    f.build buffers = .ok (none, AssocMap.assign p
        (Opened.buffer ⟨o.packet, o.sid, o.payload ++ f.payload, rest⟩) buffers) ∧
      Opened.Valid known p ⟨o.packet, o.sid, o.payload ++ f.payload, rest⟩ := by
  obtain ⟨hchunk, hsend⟩ := h.chunks f (hrest ▸ List.mem_cons_self)
  have hpayload := h.payload
  rw [hrest, List.flatMap_cons, ← List.append_assoc] at hpayload
  have hprotocol : f.protocolId = p := hchunk.protocolId.trans h.protocolId
  have henc : f.encCmdId = [] := by rw [Frame.encCmdId, hchunk.isChunkedN, if_pos rfl]
  have hlookup : o.buffer.lookup o.sid =
      some ⟨⟨o.packet.protocolId, o.packet.cmdId, o.payload, false⟩, o.packet.payload.length⟩ :=
    List.lookup_cons_self
  have hchunks : ∀ c ∈ rest, (packetFrame o.packet o.sid).IsChunk c ∧ c.Sendable o.sid :=
    fun c hc => h.chunks c (hrest ▸ List.mem_cons_of_mem _ hc)
  have hlt : (o.payload ++ f.payload).length < o.packet.payload.length := by
    obtain ⟨c, rest', rfl⟩ := List.exists_cons_of_ne_nil hne
    have hpos := List.length_pos_iff.mpr (hchunks c List.mem_cons_self).1.payload
    -- a chunk has a payload, so the packet is not complete before its last frame
    have hlen := congrArg List.length hpayload
    simp only [List.flatMap_cons, List.length_append] at hlen ⊢
    omega
  refine ⟨?_, h.known, h.protocolId, hne, hchunks, hpayload⟩
  rw [Frame.build, hsend.sequenceId, henc, List.nil_append, hprotocol,
    hchunk.totalPayloadSize, Decoding.buildPacket_chunkedN hbuffers hlookup hlt]
  simp [Opened.buffer, AssocMap.assign]

/-- The only frame of a packet completes it. -/
theorem Sealed.Valid.handle_normal {x : Sealed} {chunkbuf : List (ℕ × ChunkedPacket)}
    (h : x.Valid known t) (hbuffers : buffers.lookup t.1 = some chunkbuf)
    (hsid : chunkbuf.lookup x.sid = none) (hf : f = packetFrame x.packet x.sid)
    (hframes : x.frames = [f]) :
    f.build buffers = .ok (some x.packet.plain, buffers) := by
  have hsend := h.sendable f (hframes ▸ List.mem_singleton_self f)
  have hcmd : x.packet.cmdId < 256 := by
    have hcmd := hsend.cmdId
    rwa [hf] at hcmd
  have hid : x.packet.protocolId = t.1 := h.protocolId
  rw [← hid] at hbuffers
  rw [Frame.build, hsend.sequenceId, hf]
  exact Decoding.buildPacket_normal hbuffers hsid (hcmd.trans (by norm_num))

/-- The first of the frames of a packet opens it. -/
theorem Sealed.Valid.handle_chunked0 {x : Sealed} {payload : Bytes} {rest : List Frame}
    (h : x.Valid known t) (hbuffers : buffers.lookup t.1 = some [])
    (hf : f = { packetFrame x.packet x.sid with
      payload := payload
      totalPayloadSize := some (packetFrame x.packet x.sid).bodySize })
    (hframes : x.frames = f :: rest) (hne : rest ≠ [])
    (hpayload : payload ++ rest.flatMap Frame.payload = x.packet.payload)
    (hrest : ∀ c ∈ rest, (packetFrame x.packet x.sid).IsChunk c) :
    f.build buffers = .ok (none, AssocMap.assign t.1
        (Opened.buffer ⟨x.packet, x.sid, f.payload, rest⟩) buffers) ∧
      Opened.Valid known t.1 ⟨x.packet, x.sid, f.payload, rest⟩ := by
  have hsend := h.sendable f (hframes ▸ List.mem_cons_self)
  have hcmd : x.packet.cmdId < 256 := by
    have hcmd := hsend.cmdId
    rwa [hf] at hcmd
  have hfpayload : f.payload = payload := by rw [hf]
  have hlt : payload.length < x.packet.payload.length := by
    obtain ⟨c, rest', rfl⟩ := List.exists_cons_of_ne_nil hne
    have hpos := List.length_pos_iff.mpr (hrest c List.mem_cons_self).payload
    rw [← hpayload, List.flatMap_cons, List.length_append, List.length_append]
    omega
  have hnone : ([] : List (ℕ × ChunkedPacket)).lookup x.sid = none := rfl
  have hprotocol : f.protocolId = t.1 := by
    rw [hf]
    exact h.protocolId
  have hencCmdId : f.encCmdId = Rlp.encodeInt x.packet.cmdId := by
    rw [hf]
    rfl
  have htotal : f.totalPayloadSize =
      some ((Rlp.encodeInt x.packet.cmdId).length + x.packet.payload.length) := by
    rw [hf]
    rfl
  refine ⟨?_, h.known, h.protocolId, hne,
    fun c hc => ⟨hrest c hc, h.sendable c (hframes ▸ List.mem_cons_of_mem _ hc)⟩,
    hfpayload.symm ▸ hpayload⟩
  rw [Frame.build, hsend.sequenceId, hprotocol, hencCmdId, htotal, hfpayload,
    Opened.buffer, Decoding.buildPacket_chunked0 hbuffers hnone (hcmd.trans (by norm_num)) hlt]
  have hid : x.packet.protocolId = t.1 := h.protocolId
  rw [hid]
  rfl

theorem Agrees.handle_opened {p : ℕ} {o : Opened}
    (h : Agrees known queue added (((p, .chunked), f) :: flight) buffers received g)
    (hopened : g.opened p = some o) :
    ∃ x buffers' g', f.build buffers =
        .ok (x, buffers') ∧
      Agrees known queue added flight buffers' (received ++ Decoding.delivered [x]) g' := by
  have hvalid := h.opened p o hopened
  have hlane := h.lanes (p, .chunked)
  obtain ⟨f', rest, hrest⟩ := List.exists_cons_of_ne_nil hvalid.rest_ne_nil
  -- the frames of the packet that is partly received are the first of their lane
  obtain rfl : f = f' := by
    rw [lane_cons_self, Ghost.frames,
      show g.openedIn (p, .chunked) = some o from hopened] at hlane
    exact (List.cons.inj (hlane.trans (congrArg (· ++ _) hrest))).1
  have hchunkbuf : buffers.lookup p = some o.buffer := by
    rw [h.buffers p hvalid.known, hopened]
    rfl
  by_cases hne : rest = []
  · rw [hne] at hrest
    refine ⟨_, _, (g.setOpened p none).arrive (p, .chunked) o.packet,
      hvalid.handle_last hchunkbuf hrest, ?_⟩
    rw [Decoding.delivered, List.flatMap_singleton]
    exact h.last hopened hrest
  · obtain ⟨hhandle, hvalid'⟩ := hvalid.handle_more hchunkbuf hrest hne
    refine ⟨_, _, g.setOpened p (some ⟨o.packet, o.sid, o.payload ++ f.payload, rest⟩), hhandle,
      ?_⟩
    rw [Decoding.delivered, List.flatMap_singleton, Option.toList_none, List.filter_nil,
      List.append_nil]
    exact h.chunkedN hopened hrest hvalid'

/-- The only frame of a packet. -/
theorem Agrees.handle_normal {x : Sealed} {more : List Sealed}
    (h : Agrees known queue added ((t, f) :: flight) buffers received g)
    (hopened : g.openedIn t = none) (hpending : g.pending t = x :: more)
    (hf : f = packetFrame x.packet x.sid) (hframes : x.frames = [f]) :
    ∃ x buffers' g', f.build buffers = .ok (x, buffers') ∧
      Agrees known queue added flight buffers' (received ++ Decoding.delivered [x]) g' := by
  have hmem : x ∈ g.pending t := hpending ▸ List.mem_cons_self
  have hvalid := h.pending t x hmem
  refine ⟨_, _, (g.shift t).arrive t x.packet, hvalid.handle_normal (h.buffers t.1 hvalid.known)
    (h.lookup_buffer hmem) hf hframes, ?_⟩
  rw [Decoding.delivered, List.flatMap_singleton]
  exact h.normal hopened hpending hframes

/-- The first of the frames of a packet. -/
theorem Agrees.handle_chunked0 {p : ℕ} {x : Sealed} {more : List Sealed} {payload : Bytes}
    {rest : List Frame}
    (h : Agrees known queue added (((p, .chunked), f) :: flight) buffers received g)
    (hopened : g.opened p = none) (hpending : g.pending (p, .chunked) = x :: more)
    (hf : f = { packetFrame x.packet x.sid with
      payload := payload
      totalPayloadSize := some (packetFrame x.packet x.sid).bodySize })
    (hframes : x.frames = f :: rest) (hne : rest ≠ [])
    (hpayload : payload ++ rest.flatMap Frame.payload = x.packet.payload)
    (hrest : ∀ g ∈ rest, (packetFrame x.packet x.sid).IsChunk g) :
    ∃ x buffers' g', f.build buffers =
        .ok (x, buffers') ∧
      Agrees known queue added flight buffers' (received ++ Decoding.delivered [x]) g' := by
  have hvalid := h.pending _ x (hpending ▸ List.mem_cons_self)
  have hchunkbuf : buffers.lookup p = some [] := by
    rw [h.buffers p hvalid.known, hopened]
    rfl
  obtain ⟨hhandle, hopenedValid⟩ :=
    hvalid.handle_chunked0 hchunkbuf hf hframes hne hpayload hrest
  refine ⟨_, _, (g.shift (p, .chunked)).setOpened p (some ⟨x.packet, x.sid, f.payload, rest⟩),
    hhandle, ?_⟩
  rw [Decoding.delivered, List.flatMap_singleton, Option.toList_none, List.filter_nil,
    List.append_nil]
  exact h.chunked0 hopened hpending hframes hopenedValid

/-- The receiver takes every frame in flight. -/
theorem Agrees.handle (h : Agrees known queue added ((t, f) :: flight) buffers received g) :
    ∃ x buffers' g', f.build buffers = .ok (x, buffers') ∧
      Agrees known queue added flight buffers' (received ++ Decoding.delivered [x]) g' := by
  cases hopened : g.openedIn t with
  | some o =>
      obtain ⟨p, name⟩ := t
      obtain ⟨rfl, ho⟩ := openedIn_eq_some hopened
      exact h.handle_opened ho
  | none =>
      have hlane := h.lanes t
      rw [lane_cons_self, Ghost.frames, hopened] at hlane
      cases hpending : g.pending t with
      | nil =>
          rw [hpending] at hlane
          exact absurd hlane (List.cons_ne_nil _ _)
      | cons x more =>
          have hvalid := h.pending t x (hpending ▸ List.mem_cons_self)
          rw [hpending, List.flatMap_cons] at hlane
          obtain ⟨f', rest, hframes⟩ := List.exists_cons_of_ne_nil hvalid.carries.ne_nil
          rw [hframes] at hlane
          obtain rfl : f = f' := (List.cons.inj hlane).1
          have hcarries := hvalid.carries
          generalize hall : x.frames = frames at hcarries
          cases hcarries with
          | normal =>
              obtain ⟨rfl, rfl⟩ := List.cons.inj (hframes.symm.trans hall)
              exact h.handle_normal hopened hpending rfl hframes
          | chunked hne hpayload hrest =>
              obtain ⟨hf, rfl⟩ := List.cons.inj (hframes.symm.trans hall)
              obtain ⟨p, name⟩ := t
              -- only the chunked queue holds packets of several frames
              obtain rfl : name = .chunked := by
                by_contra hname
                have hsingle := hvalid.single hname
                rw [hframes, List.length_cons, Nat.add_eq_right,
                  List.length_eq_zero_iff] at hsingle
                exact hne hsingle
              exact h.handle_chunked0 hopened hpending hf hframes hne hpayload hrest

end Hgfrr.Multiplexing
