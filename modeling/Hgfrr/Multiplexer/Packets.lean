import Hgfrr.Multiplexer.Chunks
import Hgfrr.Multiplexer.ShortRlp

/-!
# Adding packets

A packet that is taken is queued as frames that carry it and fit the window of its
protocol. One that is refused leaves the queues as they are, but the sequence id is
used up.
-/

namespace Hgfrr.Multiplexing

open Effects

namespace Queues

variable {q : Queues} {name other : QueueName} {frames : List Frame}

@[simp] theorem queue_set_self : (q.set frames name).queue name = frames := by
  cases name <;> rfl

theorem queue_set_of_ne (h : other ≠ name) : (q.set frames name).queue other = q.queue other := by
  cases name <;> cases other <;> first | rfl | exact absurd rfl h

@[simp] theorem queue_put_self : (q.put name frames).queue name = q.queue name ++ frames :=
  queue_set_self

theorem queue_put_of_ne (h : other ≠ name) : (q.put name frames).queue other = q.queue other :=
  queue_set_of_ne h

/-- Queues are told by their frames. -/
theorem eq_of_queue {q' : Queues} (h : ∀ name, q.queue name = q'.queue name) : q = q' := by
  cases q
  cases q'
  exact Queues.mk.injEq .. ▸ ⟨h .priority, h .normal, h .chunked⟩

theorem mem_put {name other : QueueName} {f : Frame} (h : f ∈ (q.put name frames).queue other) :
    f ∈ q.queue other ∨ f ∈ frames := by
  by_cases hname : other = name
  · rw [hname, queue_put_self] at h
    exact hname ▸ List.mem_append.mp h
  · exact Or.inl (queue_put_of_ne hname ▸ h)

/-- Nothing waits when all queues are empty. -/
theorem qsize_eq_zero_iff : q.qsize = 0 ↔ ∀ name, q.queue name = [] := by
  constructor
  · intro h name
    rw [qsize] at h
    apply List.length_eq_zero_iff.mp
    cases name <;> simp only [queue] <;> omega
  · intro h
    have hpriority : q.priority = [] := h .priority
    have hnormal : q.normal = [] := h .normal
    have hchunked : q.chunked = [] := h .chunked
    rw [qsize, hpriority, hnormal, hchunked]
    rfl

end Queues

namespace Sending

variable {s : Sending} {packet : Packet} {sid : ℕ} {name : QueueName} {frames : List Frame}

/-- The state after a sequence id was used. -/
def count (s : Sending) (protocolId sid : ℕ) : Sending :=
  { s with sequenceId := AssocMap.assign protocolId ((sid + 1) % 2 ^ 16) s.sequenceId }

def putQueues (s : Sending) (protocolId : ℕ) (queues : Queues) : Sending :=
  { s with queues := AssocMap.assign protocolId queues s.queues }

/-- Windows are multiples of 16. -/
theorem protocolWindowSize_mod (protocolId : Option ℕ) :
    s.protocolWindowSize protocolId % 16 = 0 := by
  have hmod : ∀ n : ℕ, (n - n % 16) % 16 = 0 := by omega
  exact hmod _

variable [Rlp]

/-- What a packet needs to be taken. -/
structure Accepts (s : Sending) (packet : Packet) (sid : ℕ) : Prop where
  cmdId : packet.cmdId < 256
  protocolId : packet.protocolId < 2 ^ 16
  sequenceId : sid < 2 ^ 16
  window : 64 ≤ s.protocolWindowSize packet.protocolId
  priority : packet.prioritize → (packetFrame packet sid).frameSize ≤
    min (s.protocolWindowSize packet.protocolId) maxPriorityFrameSize

/-- The queue a packet is put into. -/
theorem queueName_eq_ok (h : queueName packet frames = .ok name) :
    (packet.prioritize →
        frames.length = 1 ∧ ∀ f ∈ frames.head?, f.frameSize ≤ maxPriorityFrameSize) ∧
      (name = .priority ↔ packet.prioritize) ∧ (name = .chunked ↔ frames.length ≠ 1) := by
  unfold queueName at h
  split at h
  next hprio =>
    rw [require_bind_eq_ok, require_bind_eq_ok] at h
    obtain ⟨hlen, hsize, hname⟩ := h
    obtain rfl := Except.ok.inj hname
    exact ⟨fun _ => ⟨hlen, hsize⟩, by simpa using hprio, by simpa using hlen⟩
  next hprio =>
    split at h
    next hlen =>
      obtain rfl := Except.ok.inj h
      exact ⟨fun h => absurd h hprio, by simpa using hprio, by simpa using hlen⟩
    next hlen =>
      obtain rfl := Except.ok.inj h
      exact ⟨fun h => absurd h hprio, by simpa using hprio, by simpa using hlen⟩

/-- Only a packet with priority can have no queue. -/
theorem exists_queueName
    (h : packet.prioritize →
      frames.length = 1 ∧ ∀ f ∈ frames.head?, f.frameSize ≤ maxPriorityFrameSize) :
    ∃ name, queueName packet frames = .ok name := by
  unfold queueName
  split
  next hprio =>
    obtain ⟨hlen, hsize⟩ := h hprio
    rw [require_bind hlen, require_bind hsize]
    exact ⟨_, rfl⟩
  next => split <;> exact ⟨_, rfl⟩

/-- What adding a packet can do. -/
inductive Adds (s : Sending) (packet : Packet) : Except Error Unit × Sending → Prop
  | unknown (h : s.sequenceId.lookup packet.protocolId = none ∨
        s.queues.lookup packet.protocolId = none) : Adds s packet (.error .key, s)
  | refused {sid : ℕ} {e : Error} (hsid : s.sequenceId.lookup packet.protocolId = some sid)
      (h : ¬ s.Accepts packet sid) : Adds s packet (.error e, s.count packet.protocolId sid)
  | added {sid : ℕ} {queues : Queues} {frames : List Frame} {name : QueueName}
      (hsid : s.sequenceId.lookup packet.protocolId = some sid)
      (hqueues : s.queues.lookup packet.protocolId = some queues)
      (h : s.Accepts packet sid)
      (hframes : (packetFrame packet sid).frames (s.protocolWindowSize packet.protocolId) =
        .ok frames) (hname : queueName packet frames = .ok name) :
      Adds s packet (.ok (), (s.count packet.protocolId sid).putQueues packet.protocolId
        (queues.put name frames))

/-- A packet that is accepted is cut up. -/
theorem frames_accepts (h : s.Accepts packet sid) :
    ∃ frames, (packetFrame packet sid).frames (s.protocolWindowSize packet.protocolId) =
      .ok frames := by
  refine (Frame.exists_frames_iff rfl).mpr ⟨⟨protocolWindowSize_mod _, h.cmdId, h.protocolId, ?_⟩,
    h.window⟩
  rintro _ ⟨⟩
  exact h.sequenceId

/-- A packet that is cut up and has a queue is accepted. -/
theorem accepts_of_frames
    (h : (packetFrame packet sid).frames (s.protocolWindowSize packet.protocolId) = .ok frames)
    (hname : queueName packet frames = .ok name) : s.Accepts packet sid := by
  obtain ⟨hadmits, hw⟩ := (Frame.exists_frames_iff rfl).mp ⟨frames, h⟩
  obtain ⟨hcarries, hsize, hone⟩ := frames_packetFrame h
  refine ⟨hadmits.cmdId, hadmits.protocolId, hadmits.sequenceId sid rfl, hw, fun hprio => ?_⟩
  obtain ⟨hlen, hmax⟩ := (queueName_eq_ok hname).1 hprio
  refine le_min (hone.mp hlen) ?_
  cases hcarries with
  | normal => exact hmax _ rfl
  | chunked hne =>
      rw [List.length_cons, Nat.add_eq_right, List.length_eq_zero_iff] at hlen
      exact absurd hlen hne

theorem queueName_accepts (h : s.Accepts packet sid)
    (hframes : (packetFrame packet sid).frames (s.protocolWindowSize packet.protocolId) =
      .ok frames) : ∃ name, queueName packet frames = .ok name := by
  obtain ⟨hcarries, -, hone⟩ := frames_packetFrame hframes
  apply exists_queueName
  intro hprio
  obtain ⟨hwindow, hmax⟩ := le_min_iff.mp (h.priority hprio)
  have hlen := hone.mpr hwindow
  refine ⟨hlen, ?_⟩
  cases hcarries with
  | normal => rintro _ ⟨⟩; exact hmax
  | chunked hne =>
      rw [List.length_cons, Nat.add_eq_right, List.length_eq_zero_iff] at hlen
      exact absurd hlen hne

/-- What `add_packet` does in any state. -/
theorem addPacket_adds (s : Sending) (packet : Packet) :
    Adds s packet (outcome (addPacket packet) s) := by
  rw [addPacket, outcome_bind, outcome_get]
  dsimp only
  cases hsid : s.sequenceId.lookup packet.protocolId with
  | none => exact .unknown (Or.inl hsid)
  | some sid =>
    cases hqueues : s.queues.lookup packet.protocolId with
    | none => exact .unknown (Or.inr hqueues)
    | some queues =>
        dsimp only
        rw [outcome_bind, outcome_modify]
        dsimp only
        rw [outcome_bind, outcome_ofExcept]
        cases hframes : (packetFrame packet sid).frames
            (s.protocolWindowSize packet.protocolId) with
        | error e =>
            refine .refused hsid fun h => ?_
            obtain ⟨frames, hok⟩ := frames_accepts h
            exact error_ne_ok (hframes.symm.trans hok)
        | ok frames =>
            dsimp only
            rw [outcome_bind, outcome_ofExcept]
            cases hname : queueName packet frames with
            | error e =>
                refine .refused hsid fun h => ?_
                obtain ⟨name, hok⟩ := queueName_accepts h hframes
                exact error_ne_ok (hname.symm.trans hok)
            | ok name =>
                exact .added hsid hqueues (accepts_of_frames hframes hname) hframes hname

theorem outcome_addPacket_of_accepts {queues : Queues}
    (hsid : s.sequenceId.lookup packet.protocolId = some sid)
    (hqueues : s.queues.lookup packet.protocolId = some queues) (h : s.Accepts packet sid) :
    (outcome (addPacket packet) s).1 = .ok () := by
  have hadds := addPacket_adds s packet
  generalize outcome (addPacket packet) s = r at hadds
  cases hadds with
  | unknown hunknown =>
      rcases hunknown with hnone | hnone
      · exact absurd (hsid.symm.trans hnone) (Option.some_ne_none _)
      · exact absurd (hqueues.symm.trans hnone) (Option.some_ne_none _)
  | refused hsid' hnot =>
      obtain rfl := Option.some.inj (hsid.symm.trans hsid')
      exact absurd h hnot
  | added => rfl

/-- A packet is taken exactly if the multiplexer accepts it. Then its queue goes on
with frames that fit the window and carry it, and otherwise the queues stay. -/
theorem addPacket_carries (s : Sending) (packet : Packet) :
    match outcome (addPacket packet) s with
    | (.ok _, s') => ∃ sid queues frames name,
        s.sequenceId.lookup packet.protocolId = some sid ∧
        s.queues.lookup packet.protocolId = some queues ∧ s.Accepts packet sid ∧
        s' = (s.count packet.protocolId sid).putQueues packet.protocolId (queues.put name frames) ∧
        Carries packet sid frames ∧ frames.flatMap Frame.payload = packet.payload ∧
        (∀ f ∈ frames, f.frameSize ≤ s.protocolWindowSize packet.protocolId) ∧
        (name = .priority ↔ packet.prioritize) ∧ (name = .chunked ↔ frames.length ≠ 1)
    | (.error _, s') => s'.queues = s.queues ∧ ∀ sid queues,
        s.sequenceId.lookup packet.protocolId = some sid →
        s.queues.lookup packet.protocolId = some queues → ¬ s.Accepts packet sid := by
  have hadds := addPacket_adds s packet
  generalize outcome (addPacket packet) s = r at hadds
  cases hadds with
  | unknown h =>
      refine ⟨rfl, fun sid queues hsid hqueues => ?_⟩
      rcases h with h | h
      · exact absurd (hsid.symm.trans h) (Option.some_ne_none _)
      · exact absurd (hqueues.symm.trans h) (Option.some_ne_none _)
  | refused hsid h =>
      refine ⟨rfl, fun sid queues hsid' _ => ?_⟩
      obtain rfl := Option.some.inj (hsid.symm.trans hsid')
      exact h
  | @added sid queues frames name hsid hqueues h hframes hname =>
      obtain ⟨hcarries, hsize, -⟩ := frames_packetFrame hframes
      obtain ⟨-, hpriority, hchunked⟩ := queueName_eq_ok hname
      exact ⟨sid, queues, frames, name, hsid, hqueues, h, rfl, hcarries,
        hcarries.flatMap_payload, hsize, hpriority, hchunked⟩

end Sending

namespace Sending


section Witness

attribute [local instance] shortRlp

/-- A packet that does not fit the window. -/
def sevens : Packet := ⟨1, 0, List.replicate 9000 7, false⟩

/-- Two protocols were added, and nothing else. -/
def twoProtocols : Sending := ⟨[(1, .empty), (2, .empty)], [(1, 0), (2, 0)], some 2⟩

theorem addPacket_carries_sevens :
    ∃ frames s', outcome (addPacket sevens) twoProtocols = (.ok (), s') ∧
      Carries sevens 0 frames ∧ frames.flatMap Frame.payload = sevens.payload ∧
      ∀ f ∈ frames, f.frameSize ≤ maxWindowSize := by
  have hok : (outcome (addPacket sevens) twoProtocols).1 = .ok () := by
    decide +kernel
  have hid : sevens.protocolId = 1 := rfl
  generalize sevens = packet at hok hid ⊢
  have hcarries := addPacket_carries twoProtocols packet
  revert hok hcarries
  rcases outcome (addPacket packet) twoProtocols with ⟨e | u, s'⟩ <;> intro hok hcarries
  · exact absurd hok error_ne_ok
  · rw [hid] at hcarries
    obtain ⟨sid, queues, frames, name, hsid, -, -, -, hcarries, hpayload, hsize, -, -⟩ := hcarries
    obtain rfl : 0 = sid := Option.some.inj hsid
    exact ⟨frames, s', rfl, hcarries, hpayload, hsize⟩

end Witness

end Sending

end Hgfrr.Multiplexing
