import Hgfrr.Multiplexer.Progress

/-!
# Two protocols that wait for each other

A packet for protocol 0 is cut for a window that is not divided by the protocols
that are active already. If the first frames of two protocols are larger than half
of the largest window, none of them is ever sent, and nothing behind them.
-/

namespace Hgfrr.Multiplexing

open Effects Lanes

namespace Sending

variable [Rlp] {s s' : Sending} {p q : ℕ} {name name' : QueueName} {frames frames' : List Frame}
  {packet : Packet}

/-- The front of a queue with a first frame that is larger than half of the largest
window. -/
def Front (s : Sending) (p : ℕ) (name : QueueName) (frames : List Frame) : Prop :=
  ∃ queues, s.queues.lookup p = some queues ∧ frames <+: queues.queue name ∧
    ∃ f ∈ frames.head?, maxWindowSize / 2 < f.frameSize

theorem Front.isActiveProtocol (h : s.Front p name frames) : s.isActiveProtocol p := by
  obtain ⟨queues, hqueues, hfront, f, hf, -⟩ := h
  exact isActiveProtocol_iff.mpr ⟨f, queues, name, hqueues,
    hfront.subset (List.mem_of_mem_head? hf)⟩

omit [Rlp] in
/-- Two active protocols have at most half of the window. -/
theorem protocolWindowSize_none_le (hpq : p ≠ q) (hp : s.isActiveProtocol p)
    (hq : s.isActiveProtocol q) : s.protocolWindowSize none ≤ maxWindowSize / 2 := by
  have hmem : ∀ r, s.isActiveProtocol r →
      r ∈ s.protocols.filter fun r => s.isActiveProtocol r := by
    intro r hr
    obtain ⟨queues, hqueues, -⟩ := id hr
    exact List.mem_filter.mpr ⟨AssocMap.mem_map_fst_of_lookup hqueues, decide_eq_true hr⟩
  have hsub : [p, q].Subperm (s.protocols.filter fun r => s.isActiveProtocol r) := by
    apply List.subperm_of_subset (by simpa using hpq)
    intro r hr
    rcases List.mem_cons.mp hr with rfl | hr
    · exact hmem r hp
    · exact List.mem_singleton.mp hr ▸ hmem q hq
  rw [protocolWindowSize_none]
  exact windowOf_le (m := 2) (by decide) (hsub.length_le.trans (le_max_right _ _))

/-- Nothing is taken from behind a frame that does not fit. -/
theorem Front.of_sends {queues queues' : Queues} {taken : List (QueueName × Frame)}
    (h : s.Front p name frames) (hwindow : s.protocolWindowSize none ≤ maxWindowSize / 2)
    (hsends : s.Sends q queues taken queues') : (s.putQueues q queues').Front p name frames := by
  obtain ⟨found, hfound, hfront, f, hf, hlt⟩ := h
  by_cases hq : p = q
  · subst hq
    obtain rfl := Option.some.inj (hsends.lookup.symm.trans hfound)
    refine ⟨queues', AssocMap.lookup_assign_self, ?_, f, hf, hlt⟩
    have hqueue := hsends.queue name
    cases hlane : lane name taken with
    | nil =>
        rw [hlane, List.nil_append] at hqueue
        rwa [← hqueue]
    | cons g rest =>
        obtain ⟨more, hmore⟩ := hfront
        obtain rfl : f = g := by
          have hhead := congrArg List.head? hmore
          rw [hqueue, hlane, List.head?_append, Option.mem_def.mp hf] at hhead
          exact Option.some.inj hhead
        have hmem : (name, f) ∈ taken := mem_lane.mp (hlane ▸ List.mem_cons_self)
        have hle := List.le_sum_of_mem (List.mem_map_of_mem (f := fun e => e.2.frameSize) hmem)
        have hsum := hsends.le
        dsimp only at hle
        omega
  · exact ⟨found, (AssocMap.lookup_assign_of_ne hq).trans hfound, hfront, f, hf, hlt⟩

/-- As long as two protocols have large frames in front, neither sends one. -/
theorem Front.step (hp : s.Front p name frames) (hq : s.Front q name' frames') (hpq : p ≠ q)
    (hrotates : s.Rotates) (event : Event) : (s.step event).Front p name frames := by
  cases event with
  | add packet =>
      have hadds := addPacket_adds s packet
      rw [Sending.step]
      generalize outcome (addPacket packet) s = r at hadds
      cases hadds with
      | unknown => exact hp
      | refused => exact hp
      | @added sid queues more other _ hqueues =>
          obtain ⟨found, hfound, hfront, hlarge⟩ := hp
          by_cases hpacket : p = packet.protocolId
          · rw [hpacket] at hfound
            obtain rfl := Option.some.inj (hqueues.symm.trans hfound)
            rw [hpacket]
            refine ⟨_, AssocMap.lookup_assign_self, ?_, hlarge⟩
            by_cases hname : name = other
            · subst hname
              rw [Queues.queue_put_self]
              exact hfront.trans (List.prefix_append _ _)
            · rwa [Queues.queue_put_of_ne hname]
          · exact ⟨found, (AssocMap.lookup_assign_of_ne hpacket).trans hfound, hfront, hlarge⟩
  | pop =>
      by_cases hne : s.protocols = []
      · rwa [Sending.step, popFrames_of_nil hne]
      · have hwindow := protocolWindowSize_none_le hpq hp.isActiveProtocol hq.isActiveProtocol
        obtain ⟨last, next, -, -, -, -, hcases⟩ := popFrames_cases hrotates hne
        rcases hcases with ⟨hout, -⟩ | ⟨r, queues, taken, queues', hsends, -, hout⟩ <;>
          rw [Sending.step, hout]
        · exact hp
        · exact hp.of_sends hwindow hsends

/-- So in every run. -/
theorem Front.run (hp : s.Front p name frames) (hq : s.Front q name' frames') (hpq : p ≠ q)
    (hrotates : s.Rotates) (events : List Event) :
    (s.run events).Front p name frames ∧ (s.run events).Front q name' frames' := by
  induction events generalizing s with
  | nil => exact ⟨hp, hq⟩
  | cons event events ih =>
      exact ih (hp.step hq hpq hrotates event) (hq.step hp hpq.symm hrotates event)
        (hrotates.step event)

/-- A packet whose first frame is larger than half of the largest window, if it is
cut for the largest. -/
structure Large (packet : Packet) : Prop where
  cmdId : packet.cmdId < 256
  protocolId : packet.protocolId < 2 ^ 16
  prioritize : packet.prioritize = false
  payload : 4048 ≤ packet.payload.length

/-- A large packet of an idle protocol waits in a queue of its own. -/
theorem step_add_of_large (hcounts : s.Counts) (hregistered : packet.protocolId ∈ s.protocols)
    (h : ¬ s.isActiveProtocol packet.protocolId) (hlarge : Large packet)
    (hwindow : 64 ≤ s.protocolWindowSize packet.protocolId) :
    ∃ sid frames name,
      (packetFrame packet sid).frames (s.protocolWindowSize packet.protocolId) = .ok frames ∧
      s.step (.add packet) = (s.count packet.protocolId sid).putQueues packet.protocolId
        (Queues.empty.put name frames) := by
  obtain ⟨sid, hsid, hlt⟩ := hcounts _ hregistered
  obtain ⟨queues, hqueues⟩ := AssocMap.exists_lookup_of_mem hregistered
  have hok := outcome_addPacket_of_accepts hsid hqueues
    ⟨hlarge.cmdId, hlarge.protocolId, hlt, hwindow,
      fun hprio => absurd (hlarge.prioritize.symm.trans hprio) Bool.false_ne_true⟩
  have hadds := addPacket_adds s packet
  rw [step]
  generalize outcome (addPacket packet) s = r at hadds hok
  cases hadds with
  | unknown => exact absurd hok error_ne_ok
  | refused => exact absurd hok error_ne_ok
  | @added sid queues frames name _ hqueues _ hframes =>
      refine ⟨sid, frames, name, hframes, ?_⟩
      have hempty : queues = .empty := by
        apply Queues.eq_of_queue
        intro other
        have hsize : queues.qsize = 0 := not_not.mp fun hne => h ⟨queues, hqueues, hne⟩
        rw [Queues.qsize_eq_zero_iff.mp hsize other]
        cases other <;> rfl
      rw [hempty]

/-- A large packet, cut for the largest window. -/
theorem lt_frameSize_head {sid : ℕ} (hlarge : Large packet)
    (h : (packetFrame packet sid).frames maxWindowSize = .ok frames) :
    ∃ f ∈ frames.head?, maxWindowSize / 2 < f.frameSize := by
  obtain ⟨f, rest, rfl⟩ := List.exists_cons_of_ne_nil (frames_packetFrame h).1.ne_nil
  refine ⟨f, rfl, lt_of_lt_of_le ?_ (min_le_frameSize_head h (by decide) rfl)⟩
  have hpos : 0 < (packetFrame packet sid).encCmdId.length :=
    List.length_pos_iff.mpr (Rlp.encodeInt_ne_nil packet.cmdId)
  have hpayload : 4048 ≤ (packetFrame packet sid).payload.length := hlarge.payload
  rw [lt_min_iff, Frame.frameSize_eq, maxWindowSize]
  omega

omit [Rlp] in
theorem mem_queue_put_empty {other : QueueName} {f : Frame}
    (h : f ∈ (Queues.empty.put name frames).queue other) : f ∈ frames := by
  rcases Queues.mem_put h with h | h
  · cases other <;> exact absurd h List.not_mem_nil
  · exact h

omit [Rlp] in
theorem queue_put_empty : (Queues.empty.put name frames).queue name = frames := by
  rw [Queues.queue_put_self]
  cases name <;> rfl

/-- A large frame in front of a small window blocks its queue. -/
theorem blocked_put_empty (hlarge : ∃ f ∈ frames.head?, maxWindowSize / 2 < f.frameSize)
    (hwindow : s.protocolWindowSize none ≤ maxWindowSize / 2) :
    s.Blocked (Queues.empty.put name frames) := by
  intro other f hf
  by_cases hname : other = name
  · obtain ⟨g, hg, hlt⟩ := hlarge
    rw [hname, queue_put_empty] at hf
    obtain rfl := Option.some.inj (hg.symm.trans hf)
    exact hwindow.trans_lt hlt
  · rw [Queues.queue_put_of_ne hname] at hf
    cases other <;> exact absurd hf (Option.not_mem_none f)

omit [Rlp] in
/-- One active protocol at most. -/
theorem numActiveProtocols_le_one (hnodup : s.protocols.Nodup)
    (h : ∀ q, s.isActiveProtocol q → q = p) : s.numActiveProtocols ≤ 1 := by
  have hsub : (s.protocols.filter fun q => s.isActiveProtocol q).Subperm [p] := by
    apply List.subperm_of_subset (hnodup.filter _)
    intro q hq
    rw [List.mem_filter, decide_eq_true_iff] at hq
    exact List.mem_singleton.mpr (h q hq.2)
  exact hsub.length_le

omit [Rlp] in
theorem numActiveProtocols_eq_zero (h : ∀ q, ¬ s.isActiveProtocol q) :
    s.numActiveProtocols = 0 := by
  rw [numActiveProtocols, List.length_eq_zero_iff, List.filter_eq_nil_iff]
  exact fun q _ hq => h q (of_decide_eq_true hq)

/-- Two large packets, one of them of protocol 0, in queues that were empty. -/
theorem fronts_of_large {first second : Packet} (hrotates : s.Rotates) (hcounts : s.Counts)
    (hinactive : ∀ p, ¬ s.isActiveProtocol p)
    (hregistered : first.protocolId ∈ s.protocols ∧ second.protocolId ∈ s.protocols)
    (hfirst : first.protocolId ≠ 0) (hsecond : second.protocolId = 0)
    (hlarge : Large first ∧ Large second) :
    ∃ name frames name' frames',
      (∃ f ∈ frames.head?, maxWindowSize / 2 < f.frameSize) ∧
      (∃ f ∈ frames'.head?, maxWindowSize / 2 < f.frameSize) ∧
      ∀ p, (s.run [.add first, .add second]).queues.lookup p =
        if p = 0 then some (Queues.empty.put name' frames')
        else if p = first.protocolId then some (Queues.empty.put name frames)
        else s.queues.lookup p := by
  have hwindow : s.protocolWindowSize first.protocolId = windowOf 1 := by
    rw [protocolWindowSize_of_not_active hfirst (hinactive _),
      numActiveProtocols_eq_zero hinactive]
  obtain ⟨sid, frames, name, hframes, hstep⟩ := step_add_of_large hcounts hregistered.1
    (hinactive _) hlarge.1 (hwindow ▸ by decide)
  have hholds : ∀ q f, (s.step (.add first)).Holds q f → q = first.protocolId := by
    intro q f hf
    rw [hstep] at hf
    rcases holds_putQueues hf with ⟨hq, -⟩ | ⟨-, hf⟩
    · exact hq
    · exact absurd (isActiveProtocol_iff.mpr ⟨f, hf⟩) (hinactive q)
  have hactive : ∀ q, (s.step (.add first)).isActiveProtocol q → q = first.protocolId := by
    intro q hq
    obtain ⟨f, hf⟩ := isActiveProtocol_iff.mp hq
    exact hholds q f hf
  have hnot : ¬ (s.step (.add first)).isActiveProtocol second.protocolId :=
    fun h => hfirst ((hactive _ h).symm.trans hsecond)
  -- protocol 0 is not counted as one more
  have hwindow' : (s.step (.add first)).protocolWindowSize second.protocolId = windowOf 1 := by
    rw [protocolWindowSize_of_active (Or.inl hsecond),
      max_eq_left (numActiveProtocols_le_one (hrotates.step _).nodup hactive)]
  obtain ⟨sid', frames', name', hframes', hstep'⟩ := step_add_of_large
    (hcounts.step hrotates (.add first)) ((protocols_step hrotates _).symm ▸ hregistered.2) hnot
    hlarge.2 (hwindow' ▸ by decide)
  rw [hwindow] at hframes
  rw [hwindow'] at hframes'
  refine ⟨name, frames, name', frames', lt_frameSize_head hlarge.1 hframes,
    lt_frameSize_head hlarge.2 hframes', fun p => ?_⟩
  rw [show s.run [.add first, .add second] = (s.step (.add first)).step (.add second) from rfl,
    hstep', hstep, hsecond]
  split
  next hp =>
    rw [hp]
    exact AssocMap.lookup_assign_self
  next hp =>
    refine (AssocMap.lookup_assign_of_ne hp).trans ?_
    split
    next hp =>
      rw [hp]
      exact AssocMap.lookup_assign_self
    next hp => exact AssocMap.lookup_assign_of_ne hp

end Sending

namespace Multiplexer

open Sending

section Stalls

variable [Rlp]

/-- After a large packet of a protocol other than 0 and one of protocol 0 were added
to empty queues, no frames are popped, and whatever comes later none of their frames
is ever sent. -/
theorem large_packets_stall {frameCipher : Option RLPxSession} {protocols : List ℕ}
    {earlier : List Event} {first second : Packet}
    (hinactive : ∀ p, ¬ ((registered frameCipher protocols).run earlier).isActiveProtocol p)
    (hregistered : first.protocolId ∈ protocols ∧ second.protocolId ∈ protocols)
    (hfirst : first.protocolId ≠ 0) (hsecond : second.protocolId = 0)
    (hlarge : Large first ∧ Large second) (events : List Event) :
    (outcome popFrames
        (((registered frameCipher protocols).run earlier).run [.add first, .add second])).1 =
          .ok [] ∧
      ∀ p f, (((registered frameCipher protocols).run earlier).run
          [.add first, .add second]).Holds p f →
        ((((registered frameCipher protocols).run earlier).run [.add first, .add second]).run
          events).Holds p f := by
  obtain ⟨hfresh, hmem⟩ := registered_fresh frameCipher protocols
  have hrotates := hfresh.rotates.run earlier
  have hprotocols := protocols_run hfresh.rotates earlier
  obtain ⟨name, frames, name', frames', hhead, hhead', hlookup⟩ :=
    fronts_of_large hrotates (hfresh.counts.run hfresh.rotates earlier) hinactive
      ⟨hprotocols ▸ (hmem _).mpr hregistered.1, hprotocols ▸ (hmem _).mpr hregistered.2⟩ hfirst
      hsecond hlarge
  generalize (registered frameCipher protocols).run earlier = s at hinactive hrotates hlookup
  have hrotates' := hrotates.run [.add first, .add second]
  have hfront : (s.run [.add first, .add second]).Front first.protocolId name frames :=
    ⟨_, by rw [hlookup, if_neg hfirst, if_pos rfl], by rw [queue_put_empty], hhead⟩
  have hfront' : (s.run [.add first, .add second]).Front 0 name' frames' :=
    ⟨_, by rw [hlookup, if_pos rfl], by rw [queue_put_empty], hhead'⟩
  have hwindow := protocolWindowSize_none_le hfirst hfront.isActiveProtocol
    hfront'.isActiveProtocol
  have hempty : ∀ {p queues}, s.queues.lookup p = some queues → ∀ other, queues.queue other = [] :=
    fun {p queues} hqueues other => List.eq_nil_iff_forall_not_mem.mpr fun f hf =>
      hinactive p (isActiveProtocol_iff.mpr ⟨f, queues, other, hqueues, hf⟩)
  constructor
  · obtain ⟨queues, hqueues, -⟩ := id hfront'
    have hne := List.ne_nil_of_mem (AssocMap.mem_map_fst_of_lookup hqueues)
    obtain ⟨last, next, -, -, -, -, hcases⟩ := popFrames_cases hrotates' hne
    rcases hcases with ⟨hout, -⟩ | ⟨p, queues, taken, queues', hsends, -, -⟩
    · rw [hout]
    -- whatever protocol the turn is at, the front of its queue is too large, if there is one
    · exfalso
      apply hsends.not_blocked
      have hfound := hsends.lookup
      rw [hlookup] at hfound
      split at hfound
      next => exact Option.some.inj hfound ▸ blocked_put_empty hhead' hwindow
      next =>
        split at hfound
        next => exact Option.some.inj hfound ▸ blocked_put_empty hhead hwindow
        next =>
          intro other f hf
          rw [hempty hfound other] at hf
          exact absurd hf (Option.not_mem_none f)
  · rintro p f ⟨queues, other, hfound, hf⟩
    obtain ⟨hrun, hrun'⟩ := hfront.run hfront' hfirst hrotates' events
    rw [hlookup] at hfound
    split at hfound
    next hp =>
      obtain ⟨queues', hqueues', hprefix, -⟩ := hrun'
      rw [← Option.some.inj hfound] at hf
      exact ⟨queues', name', hp ▸ hqueues', hprefix.subset (mem_queue_put_empty hf)⟩
    next =>
      split at hfound
      next hp =>
        obtain ⟨queues', hqueues', hprefix, -⟩ := hrun
        rw [← Option.some.inj hfound] at hf
        exact ⟨queues', name, hp ▸ hqueues', hprefix.subset (mem_queue_put_empty hf)⟩
      next =>
        rw [hempty hfound other] at hf
        exact absurd hf List.not_mem_nil

end Stalls

section Witness

attribute [local instance] shortRlp

/-- A packet of zeros that is just large enough. -/
def zeros (protocolId : ℕ) : Packet := ⟨protocolId, 0, List.replicate 4048 0, false⟩

theorem zeros_large {protocolId : ℕ} (h : protocolId < 2 ^ 16) : Large (zeros protocolId) :=
  ⟨show 0 < 256 by decide, h, rfl, (List.length_replicate ..).ge⟩

theorem zeros_stall :
    (outcome popFrames
        (((registered none [1, 0]).run []).run [.add (zeros 1), .add (zeros 0)])).1 = .ok [] ∧
      ∀ p f, (((registered none [1, 0]).run []).run [.add (zeros 1), .add (zeros 0)]).Holds p f →
        ((((registered none [1, 0]).run []).run [.add (zeros 1), .add (zeros 0)]).run
          [.pop]).Holds p f :=
  large_packets_stall
    (by
      intro p hp
      exact List.not_mem_nil (((registered_fresh none [1, 0]).1.flows.mem_iff p).mpr hp))
    ⟨by decide, by decide⟩ (by decide) rfl
    ⟨zeros_large (by norm_num), zeros_large (by norm_num)⟩ [.pop]

end Witness

end Multiplexer

end Hgfrr.Multiplexing
