import Hgfrr.Multiplexer.Rounds

/-!
# Progress

The window of a protocol that becomes active is divided by one protocol more than
were active. So the frames of the protocol that became active last fit, and in the
end all frames are popped. Only for protocol 0 the window is not divided, and then
two protocols can wait for each other.
-/

namespace Hgfrr.Multiplexing

open Effects Lanes

/-- A queue of a protocol. -/
abbrev Lane := ℕ × QueueName

namespace Sending

/-- The window of each of some active protocols. -/
def windowOf (n : ℕ) : ℕ := maxWindowSize / n - maxWindowSize / n % 16

/-- More active protocols, smaller windows. -/
theorem windowOf_le {m n : ℕ} (hm : 0 < m) (h : m ≤ n) : windowOf n ≤ windowOf m := by
  have hle : maxWindowSize / n ≤ maxWindowSize / m := Nat.div_le_div_left h hm
  unfold windowOf
  omega

variable {s s' : Sending} {p n : ℕ} {active : List ℕ}

theorem protocolWindowSize_none :
    s.protocolWindowSize none = windowOf (max 1 s.numActiveProtocols) := by
  rw [protocolWindowSize, if_neg (by simp)]
  rfl

/-- The window of a protocol that has frames. -/
theorem protocolWindowSize_of_active (h : p = 0 ∨ s.isActiveProtocol p) :
    s.protocolWindowSize p = windowOf (max 1 s.numActiveProtocols) := by
  rw [protocolWindowSize, if_neg]
  · rfl
  · rintro ⟨q, hq, hne, hnot⟩
    obtain rfl := Option.some.inj hq
    exact h.elim hne hnot

/-- A protocol that has none counts as one more. -/
theorem protocolWindowSize_of_not_active (hp : p ≠ 0) (h : ¬ s.isActiveProtocol p) :
    s.protocolWindowSize p = windowOf (1 + s.numActiveProtocols) := by
  rw [protocolWindowSize, if_pos ⟨p, rfl, hp, h⟩]
  rfl

/-- A frame waits in a queue of a protocol. -/
def Holds (s : Sending) (p : ℕ) (f : Frame) : Prop :=
  ∃ queues name, s.queues.lookup p = some queues ∧ f ∈ queues.queue name

/-- A protocol is active when one of its frames waits. -/
theorem isActiveProtocol_iff : s.isActiveProtocol p ↔ ∃ f, s.Holds p f := by
  constructor
  · rintro ⟨queues, hqueues, hsize⟩
    rw [Ne, Queues.qsize_eq_zero_iff, not_forall] at hsize
    obtain ⟨name, hname⟩ := hsize
    obtain ⟨f, hf⟩ := List.exists_mem_of_ne_nil _ hname
    exact ⟨f, queues, name, hqueues, hf⟩
  · rintro ⟨f, queues, name, hqueues, hf⟩
    refine ⟨queues, hqueues, fun hsize => ?_⟩
    rw [Queues.qsize_eq_zero_iff.mp hsize name] at hf
    exact List.not_mem_nil hf

/-- The frames that wait in a queue. -/
def waiting (s : Sending) (t : Lane) : List Frame := (s.queues.lookup t.1).elim [] (·.queue t.2)

section Waiting

variable {queues : Queues} {name : QueueName} {t : Lane} {f : Frame}

theorem waiting_of_lookup (h : s.queues.lookup p = some queues) :
    s.waiting (p, name) = queues.queue name := by
  rw [waiting, h]
  rfl

theorem waiting_putQueues_self : (s.putQueues p queues).waiting (p, name) = queues.queue name :=
  waiting_of_lookup AssocMap.lookup_assign_self

theorem waiting_putQueues_of_ne (h : t.1 ≠ p) : (s.putQueues p queues).waiting t = s.waiting t := by
  rw [waiting, putQueues, AssocMap.lookup_assign_of_ne h]
  rfl

/-- The frames that were added are at the end of their queue. -/
theorem waiting_put_self {sid : ℕ} {frames : List Frame} (h : s.queues.lookup p = some queues) :
    ((s.count p sid).putQueues p (queues.put name frames)).waiting (p, name) =
      s.waiting (p, name) ++ frames := by
  rw [waiting_putQueues_self, Queues.queue_put_self, waiting_of_lookup h]

/-- Adding to one queue leaves the others. -/
theorem waiting_put_of_ne {sid : ℕ} {frames : List Frame} (h : s.queues.lookup p = some queues)
    (ht : t ≠ (p, name)) :
    ((s.count p sid).putQueues p (queues.put name frames)).waiting t = s.waiting t := by
  obtain ⟨q, other⟩ := t
  by_cases hq : q = p
  · subst hq
    rw [waiting_putQueues_self, waiting_of_lookup h,
      Queues.queue_put_of_ne fun heq => ht (by rw [heq])]
  · exact waiting_putQueues_of_ne (s := s.count p sid) hq

theorem holds_of_mem_waiting (h : f ∈ s.waiting t) : s.Holds t.1 f := by
  rw [waiting] at h
  cases hqueues : s.queues.lookup t.1 with
  | none =>
      rw [hqueues] at h
      exact absurd h List.not_mem_nil
  | some queues =>
      rw [hqueues] at h
      exact ⟨queues, t.2, hqueues, h⟩

theorem waiting_eq_nil (h : ¬ s.isActiveProtocol t.1) : s.waiting t = [] := by
  apply List.eq_nil_iff_forall_not_mem.mpr
  intro f hf
  exact h (isActiveProtocol_iff.mpr ⟨f, holds_of_mem_waiting hf⟩)

end Waiting

section Sized

variable [Rlp]

/-- Of the active protocols, the last first, each has frames that fit the window it
had with those before it. -/
def Fits (s : Sending) : List ℕ → Prop
  | [] => True
  | p :: older => (∀ f, s.Holds p f → f.frameSize ≤ windowOf (older.length + 1)) ∧ Fits s older

/-- Frames still fit when the new ones fit the window of at least as many protocols. -/
theorem Fits.mono (h : s.Fits active) (hlen : active.length ≤ n)
    (hholds : ∀ p ∈ active, ∀ f, s'.Holds p f → s.Holds p f ∨ f.frameSize ≤ windowOf n) :
    s'.Fits active := by
  induction active with
  | nil => trivial
  | cons p older ih =>
      obtain ⟨hp, holder⟩ := List.forall_mem_cons.mp hholds
      refine ⟨fun f hf => ?_, ih h.2 (Nat.le_of_succ_le hlen) holder⟩
      rcases hp f hf with hold | hle
      · exact h.1 f hold
      · exact hle.trans (windowOf_le (Nat.succ_pos _) hlen)

theorem Fits.sublist {part : List ℕ} (h : s.Fits active) (hpart : part.Sublist active) :
    s.Fits part := by
  induction hpart with
  | slnil => trivial
  | cons p _ ih => exact ih h.2
  | cons_cons p hpart ih =>
      refine ⟨fun f hf => (h.1 f hf).trans ?_, ih h.2⟩
      exact windowOf_le (Nat.succ_pos _) (Nat.succ_le_succ hpart.length_le)

/-- The active protocols, the last first. -/
structure Flows (s : Sending) (active : List ℕ) : Prop where
  nodup : active.Nodup
  mem_iff : ∀ p, p ∈ active ↔ s.isActiveProtocol p
  fits : s.Fits active

theorem Flows.numActiveProtocols (h : s.Flows active) (hnodup : s.protocols.Nodup) :
    s.numActiveProtocols = active.length := by
  apply List.Perm.length_eq
  rw [List.perm_ext_iff_of_nodup (hnodup.filter _) h.nodup]
  intro p
  rw [List.mem_filter, decide_eq_true_iff, h.mem_iff]
  refine and_iff_right_of_imp ?_
  rintro ⟨queues, hqueues, -⟩
  exact AssocMap.mem_map_fst_of_lookup hqueues

/-- When frames are taken away, the protocols that are still active stay in their
order. -/
theorem Flows.of_holds (h : s.Flows active) (hholds : ∀ p f, s'.Holds p f → s.Holds p f) :
    ∃ active', s'.Flows active' := by
  refine ⟨active.filter fun p => s'.isActiveProtocol p, h.nodup.filter _, fun p => ?_, ?_⟩
  · rw [List.mem_filter, decide_eq_true_iff, h.mem_iff]
    refine and_iff_right_of_imp fun hactive => ?_
    obtain ⟨f, hf⟩ := isActiveProtocol_iff.mp hactive
    exact isActiveProtocol_iff.mpr ⟨f, hholds p f hf⟩
  · apply (h.fits.sublist List.filter_sublist).mono le_rfl
    exact fun p _ f hf => Or.inl (hholds p f hf)

end Sized

theorem holds_putQueues {queues' : Queues} {q : ℕ} {f : Frame}
    (h : (s.putQueues p queues').Holds q f) :
    (q = p ∧ ∃ name, f ∈ queues'.queue name) ∨ (q ≠ p ∧ s.Holds q f) := by
  obtain ⟨found, name, hfound, hf⟩ := h
  by_cases hq : q = p
  · rw [hq, putQueues, AssocMap.lookup_assign_self, Option.some.injEq] at hfound
    exact Or.inl ⟨hq, name, hfound ▸ hf⟩
  · rw [putQueues, AssocMap.lookup_assign_of_ne hq] at hfound
    exact Or.inr ⟨hq, found, name, hfound, hf⟩

/-- What waits after a packet was added. -/
theorem holds_put {queues : Queues} {name : QueueName} {frames : List Frame} {q : ℕ} {f : Frame}
    (hqueues : s.queues.lookup p = some queues) :
    (s.putQueues p (queues.put name frames)).Holds q f ↔ s.Holds q f ∨ (q = p ∧ f ∈ frames) := by
  constructor
  · intro h
    rcases holds_putQueues h with ⟨rfl, other, hf⟩ | ⟨-, hf⟩
    · rcases Queues.mem_put hf with hf | hf
      · exact Or.inl ⟨queues, other, hqueues, hf⟩
      · exact Or.inr ⟨rfl, hf⟩
    · exact Or.inl hf
  · intro h
    by_cases hq : q = p
    · subst hq
      rcases h with ⟨found, other, hfound, hf⟩ | ⟨-, hf⟩
      · obtain rfl := Option.some.inj (hqueues.symm.trans hfound)
        refine ⟨_, other, AssocMap.lookup_assign_self, ?_⟩
        by_cases hname : other = name
        · rw [hname, Queues.queue_put_self]
          exact List.mem_append_left _ (hname ▸ hf)
        · rwa [Queues.queue_put_of_ne hname]
      · refine ⟨_, name, AssocMap.lookup_assign_self, ?_⟩
        rw [Queues.queue_put_self]
        exact List.mem_append_right _ hf
    · obtain ⟨found, other, hfound, hf⟩ := h.resolve_right fun h => hq h.1
      exact ⟨found, other, (AssocMap.lookup_assign_of_ne hq).trans hfound, hf⟩

variable [Rlp]

/-- A packet for protocol 0 is added when no other protocol is active, or when
protocol 0 already is. -/
def Event.Divides (s : Sending) : Event → Prop
  | .add packet => packet.protocolId = 0 → s.isActiveProtocol 0 ∨ s.numActiveProtocols = 0
  | .pop => True

/-- A packet that was cut up for its share of the window keeps the frames flowing. -/
theorem Flows.add {packet : Packet} (h : s.Flows active) (hrotates : s.Rotates)
    (hdivides : (Event.add packet).Divides s) :
    ∃ active', (s.step (.add packet)).Flows active' := by
  have hadds := addPacket_adds s packet
  rw [step]
  generalize outcome (addPacket packet) s = r at hadds
  cases hadds with
  | unknown => exact ⟨active, h⟩
  | refused => exact ⟨active, h.nodup, h.mem_iff, h.fits.mono le_rfl fun _ _ _ hf => Or.inl hf⟩
  | @added sid queues frames name _ hqueues _ hframes _ =>
      obtain ⟨hcarries, hsize, -⟩ := frames_packetFrame hframes
      have hholds : ∀ q f, ((s.count packet.protocolId sid).putQueues packet.protocolId
          (queues.put name frames)).Holds q f ↔
          s.Holds q f ∨ (q = packet.protocolId ∧ f ∈ frames) :=
        fun q f => holds_put (s := s.count packet.protocolId sid) hqueues
      obtain ⟨g, hg⟩ := List.exists_mem_of_ne_nil _ hcarries.ne_nil
      have hactive : ∀ q, ((s.count packet.protocolId sid).putQueues packet.protocolId
          (queues.put name frames)).isActiveProtocol q ↔
          s.isActiveProtocol q ∨ q = packet.protocolId := by
        intro q
        simp only [isActiveProtocol_iff, hholds, exists_or, exists_and_left]
        exact or_congr_right (and_iff_left ⟨g, hg⟩)
      have hnum := h.numActiveProtocols hrotates.nodup
      by_cases hold : s.isActiveProtocol packet.protocolId
      · have hmem := (h.mem_iff _).mpr hold
        -- the window is that of the protocols active before
        rw [protocolWindowSize_of_active (Or.inr hold), hnum,
          max_eq_right (List.length_pos_of_mem hmem)] at hsize
        refine ⟨active, h.nodup, fun q => ?_, h.fits.mono le_rfl fun q _ f hf => ?_⟩
        · rw [hactive, h.mem_iff]
          refine (or_iff_left_of_imp ?_).symm
          rintro rfl
          exact hold
        · exact ((hholds q f).mp hf).imp_right fun hf => hsize f hf.2
      -- the protocol is the one that becomes active last
      · have hwindow : s.protocolWindowSize packet.protocolId = windowOf (active.length + 1) := by
          by_cases hzero : packet.protocolId = 0
          · have hnone := (hdivides hzero).resolve_left (hzero ▸ hold)
            rw [protocolWindowSize_of_active (Or.inl hzero), ← hnum, hnone]
            rfl
          · rw [protocolWindowSize_of_not_active hzero hold, hnum, Nat.add_comm]
        rw [hwindow] at hsize
        have hnot : packet.protocolId ∉ active := fun hmem => hold ((h.mem_iff _).mp hmem)
        refine ⟨packet.protocolId :: active, List.nodup_cons.mpr ⟨hnot, h.nodup⟩, fun q => ?_,
          fun f hf => ?_, h.fits.mono le_rfl fun q hq f hf => ?_⟩
        · rw [hactive, List.mem_cons, h.mem_iff, or_comm]
        · rcases (hholds _ f).mp hf with hf | hf
          · exact absurd (isActiveProtocol_iff.mpr ⟨f, hf⟩) hold
          · exact hsize f hf.2
        · refine Or.inl (((hholds q f).mp hf).resolve_right fun hf => ?_)
          exact hnot (hf.1 ▸ hq)

theorem holds_of_sends {queues queues' : Queues} {taken : List (QueueName × Frame)} {q : ℕ}
    {f : Frame} (h : s.Sends p queues taken queues') (hf : (s.putQueues p queues').Holds q f) :
    s.Holds q f := by
  rcases holds_putQueues hf with ⟨rfl, name, hf⟩ | ⟨-, hf⟩
  · refine ⟨queues, name, h.lookup, ?_⟩
    rw [h.queue name]
    exact List.mem_append_right _ hf
  · exact hf

/-- A turn keeps the frames flowing. -/
theorem Flows.pop (h : s.Flows active) (hrotates : s.Rotates) :
    ∃ active', (s.step .pop).Flows active' := by
  by_cases hne : s.protocols = []
  · rw [step, popFrames_of_nil hne]
    exact ⟨active, h⟩
  · apply h.of_holds
    obtain ⟨last, next, -, -, -, -, hcases⟩ := popFrames_cases hrotates hne
    rcases hcases with ⟨hout, -⟩ | ⟨p, queues, taken, queues', hsends, -, hout⟩ <;>
      rw [step, hout] <;> intro q f hf
    · exact hf
    · exact holds_of_sends hsends hf

/-- The events of a run divide the window. -/
def Divided (s : Sending) : List Event → Prop
  | [] => True
  | event :: events => event.Divides s ∧ (s.step event).Divided events

/-- So does every run. -/
theorem Flows.run {events : List Event} (h : s.Flows active) (hrotates : s.Rotates)
    (hdivided : s.Divided events) : ∃ active', (s.run events).Flows active' := by
  induction events generalizing s active with
  | nil => exact ⟨active, h⟩
  | cons event events ih =>
      obtain ⟨hdivides, hrest⟩ := hdivided
      have hstep : ∃ active', (s.step event).Flows active' := by
        cases event with
        | add packet => exact h.add hrotates hdivides
        | pop => exact h.pop hrotates
      obtain ⟨active', h'⟩ := hstep
      exact ih h' (hrotates.step event) hrest

/-- The protocol that became active last does not wait. -/
theorem Flows.not_waits (h : s.Flows (p :: active)) (hrotates : s.Rotates) : ¬ s.Waits p := by
  obtain ⟨queues, hqueues, hsize⟩ := (h.mem_iff p).mp List.mem_cons_self
  rw [Ne, Queues.qsize_eq_zero_iff, not_forall] at hsize
  obtain ⟨name, hname⟩ := hsize
  obtain ⟨f, rest, hcons⟩ := List.exists_cons_of_ne_nil hname
  intro hwaits
  have hlt := hwaits queues hqueues name f (by rw [hcons]; rfl)
  rw [protocolWindowSize_none, h.numActiveProtocols hrotates.nodup, List.length_cons,
    max_eq_right (Nat.succ_pos _)] at hlt
  exact absurd (h.fits.1 f ⟨queues, name, hqueues, hcons ▸ List.mem_cons_self⟩) (not_le.mpr hlt)

/-- A turn takes out what it sends. -/
theorem numFrames_of_sends {queues queues' : Queues} {taken : List (QueueName × Frame)}
    (h : s.Sends p queues taken queues') :
    (s.putQueues p queues').numFrames + taken.length = s.numFrames := by
  have hsum : ((AssocMap.assign p queues' s.queues).map fun entry => entry.2.qsize).sum +
      queues.qsize = (s.queues.map fun entry => entry.2.qsize).sum + queues'.qsize :=
    AssocMap.sum_map_assign Queues.qsize h.lookup
  have hsize := Queues.qsize_of_queue h.queue
  rw [numFrames, numFrames, putQueues]
  dsimp only
  omega

omit [Rlp] in
/-- No frames wait when no protocol is active. -/
theorem numFrames_eq_zero_iff (hnodup : s.protocols.Nodup) :
    s.numFrames = 0 ↔ ∀ p, ¬ s.isActiveProtocol p := by
  rw [numFrames, List.sum_eq_zero_iff]
  constructor
  · rintro h p ⟨queues, hqueues, hsize⟩
    exact hsize (h _ (List.mem_map_of_mem (AssocMap.mem_of_lookup hqueues)))
  · rintro h _ hsize
    obtain ⟨⟨p, queues⟩, hentry, rfl⟩ := List.mem_map.mp hsize
    by_contra hne
    exact h p ⟨queues, AssocMap.lookup_of_mem hnodup hentry, hne⟩

/-- While a protocol is active frames are popped. -/
theorem Flows.popFrames (h : s.Flows active) (hrotates : s.Rotates) (hne : s.protocols ≠ []) :
    ∃ frames s', outcome popFrames s = (.ok frames, s') ∧ s' = s.step .pop ∧
      s'.numFrames + frames.length = s.numFrames ∧
      (frames = [] ↔ ∀ p, ¬ s.isActiveProtocol p) := by
  obtain ⟨last, next, -, -, -, -, hcases⟩ := popFrames_cases hrotates hne
  rcases hcases with ⟨hout, hwaits⟩ | ⟨p, queues, taken, queues', hsends, -, hout⟩
  · refine ⟨[], _, hout, by rw [step, hout], rfl, iff_of_true rfl fun p hp => ?_⟩
    cases active with
    | nil => exact List.not_mem_nil ((h.mem_iff p).mpr hp)
    | cons q active =>
        obtain ⟨queues, hqueues, -⟩ := (h.mem_iff q).mp List.mem_cons_self
        exact h.not_waits hrotates (hwaits q (AssocMap.mem_map_fst_of_lookup hqueues))
  · refine ⟨_, _, hout, by rw [step, hout], ?_, iff_of_false ?_ fun hall => ?_⟩
    · rw [List.length_map]
      exact numFrames_of_sends (s := s) hsends
    · exact fun hnil => hsends.ne_nil (List.map_eq_nil_iff.mp hnil)
    · obtain ⟨⟨name, f⟩, hentry⟩ := List.exists_mem_of_ne_nil _ hsends.ne_nil
      refine hall p (isActiveProtocol_iff.mpr ⟨f, queues, name, hsends.lookup, ?_⟩)
      rw [hsends.queue name]
      exact List.mem_append_left _ (mem_lane.mpr hentry)

/-- The frames that are popped come from the fronts of the queues. -/
theorem popFrames_waiting (h : s.Rotates) (hne : s.protocols ≠ []) :
    ∃ taken : List (Lane × Frame),
      outcome popFrames s = (.ok (taken.map Prod.snd), s.step .pop) ∧
      ∀ t, s.waiting t = lane t taken ++ (s.step .pop).waiting t := by
  obtain ⟨last, next, -, -, -, -, hcases⟩ := popFrames_cases h hne
  rcases hcases with ⟨hout, -⟩ | ⟨p, queues, taken, queues', hsends, -, hout⟩
  · exact ⟨[], by rw [Sending.step, hout]; rfl, fun t => by rw [Sending.step, hout]; rfl⟩
  · refine ⟨taken.map fun entry => ((p, entry.1), entry.2), ?_, fun t => ?_⟩
    · rw [Sending.step, hout, List.map_map]
      rfl
    · rw [Sending.step, hout]
      obtain ⟨q, name⟩ := t
      by_cases hq : q = p
      · rw [hq, lane_map_prod, waiting_of_lookup hsends.lookup, hsends.queue name,
          waiting_putQueues_self]
      · rw [lane_map_prod_of_ne (Ne.symm hq), List.nil_append, waiting_putQueues_of_ne hq]
        rfl

omit [Rlp] in
/-- Nothing waits in the queues. -/
structure Ready (s : Sending) : Prop where
  rotates : s.Rotates
  idle : ∀ p, ¬ s.isActiveProtocol p

/-- All frames that wait are popped. -/
theorem Flows.popAllWithin_waiting (h : s.Flows active) (hrotates : s.Rotates)
    (hne : s.protocols ≠ []) (hn : s.numFrames < n) :
    ∃ (taken : List (Lane × Frame)) (s' : Sending),
      outcome (Sending.popAllWithin n) s = (.ok (taken.map Prod.snd), s') ∧ s'.Ready ∧
        s'.protocols = s.protocols ∧ ∀ t, s.waiting t = lane t taken := by
  -- each round takes a frame or finds that none waits
  induction n generalizing s active with
  | zero => exact absurd hn (Nat.not_lt_zero _)
  | succ n ih =>
      obtain ⟨frames, _, hout, rfl, hnum, hnil⟩ := h.popFrames hrotates hne
      obtain ⟨taken, hout', hqueue⟩ := popFrames_waiting hrotates hne
      obtain rfl : frames = taken.map Prod.snd :=
        Except.ok.inj (congrArg Prod.fst (hout.symm.trans hout'))
      have hprotocols := protocols_step hrotates .pop
      rw [Sending.popAllWithin, outcome_bind, hout]
      dsimp only
      by_cases hframes : taken.map Prod.snd = []
      · rw [if_pos hframes]
        have hidle := hnil.mp hframes
        rw [hframes, List.length_nil, Nat.add_zero] at hnum
        have hzero := (numFrames_eq_zero_iff hrotates.nodup).mpr hidle
        have hidle' := (numFrames_eq_zero_iff (hrotates.step .pop).nodup).mp (hnum.trans hzero)
        exact ⟨[], _, rfl, ⟨hrotates.step .pop, hidle'⟩, hprotocols,
          fun t => waiting_eq_nil (hidle t.1)⟩
      · rw [if_neg hframes, outcome_bind]
        have hpos := List.length_pos_iff.mpr hframes
        obtain ⟨active', h'⟩ := h.pop hrotates
        obtain ⟨more, t, hmore, hready, hsame, hrest⟩ := ih h' (hrotates.step .pop)
          (by rwa [hprotocols]) (by omega)
        rw [hmore]
        refine ⟨taken ++ more, t, ?_, hready, hsame.trans hprotocols, fun t => ?_⟩
        · rw [List.map_append]
          rfl
        · rw [hqueue, hrest, lane_append]

end Sending

namespace Multiplexer

open Sending

section Drains

variable [Rlp]

variable {frameCipher : Option RLPxSession}

theorem Fresh.flows {m : Multiplexer} (h : m.Fresh frameCipher) : m.Flows [] := by
  refine ⟨List.nodup_nil, fun p => iff_of_false List.not_mem_nil ?_, trivial⟩
  rintro ⟨queues, hqueues, hsize⟩
  apply hsize
  rw [show queues = .empty from h.queues _ (AssocMap.mem_of_lookup hqueues)]
  rfl

/-- After packets were added that divide the window, and frames were popped, there
are frames to pop while a protocol is active, and all that wait can be popped, those of
each queue in their order. -/
theorem popAllFrames_drains {protocols : List ℕ} {events : List Event} (hne : protocols ≠ [])
    (hdivided : (registered frameCipher protocols).Divided events) :
    ((outcome popFrames ((registered frameCipher protocols).run events)).1 = .ok [] ↔
        ∀ p, ¬ ((registered frameCipher protocols).run events).isActiveProtocol p) ∧
      ∃ (taken : List (Lane × Frame)) (s' : Sending),
        outcome popAllFrames ((registered frameCipher protocols).run events) =
          (.ok (taken.map Prod.snd), s') ∧
        (∀ t, ((registered frameCipher protocols).run events).waiting t = lane t taken) ∧
        ∀ p, ¬ s'.isActiveProtocol p := by
  obtain ⟨hfresh, hmem⟩ := registered_fresh frameCipher protocols
  have hprotocols : ((registered frameCipher protocols).run events).protocols ≠ [] := by
    rw [protocols_run hfresh.rotates]
    obtain ⟨p, hp⟩ := List.exists_mem_of_ne_nil _ hne
    exact List.ne_nil_of_mem ((hmem p).mpr hp)
  have hrotates := hfresh.rotates.run events
  obtain ⟨active, hflows⟩ := hfresh.flows.run hfresh.rotates hdivided
  refine ⟨?_, ?_⟩
  · obtain ⟨frames, s', hout, -, -, hnil⟩ := hflows.popFrames hrotates hprotocols
    rw [hout, Except.ok.injEq]
    exact hnil
  · obtain ⟨taken, s', hout, hready, -, hwaiting⟩ :=
      hflows.popAllWithin_waiting hrotates hprotocols (Nat.lt_succ_self _)
    exact ⟨taken, s', hout, hwaiting, hready.idle⟩

end Drains

section Witness

attribute [local instance] shortRlp

/-- Three frames of two protocols wait, one of them in front of the others of its protocol. -/
theorem popAllFrames_drains_two :
    ((outcome popFrames ((registered none [1, 2]).run
        [.add ⟨1, 0, [5], false⟩, .add ⟨2, 0, [6], false⟩, .add ⟨2, 0, [7], true⟩])).1 = .ok [] ↔
        ∀ p, ¬ ((registered none [1, 2]).run [.add ⟨1, 0, [5], false⟩, .add ⟨2, 0, [6], false⟩,
          .add ⟨2, 0, [7], true⟩]).isActiveProtocol p) ∧
      ∃ (taken : List (Lane × Frame)) (s' : Sending),
        outcome popAllFrames ((registered none [1, 2]).run
          [.add ⟨1, 0, [5], false⟩, .add ⟨2, 0, [6], false⟩, .add ⟨2, 0, [7], true⟩]) =
          (.ok (taken.map Prod.snd), s') ∧
        (∀ t, ((registered none [1, 2]).run [.add ⟨1, 0, [5], false⟩, .add ⟨2, 0, [6], false⟩,
          .add ⟨2, 0, [7], true⟩]).waiting t = lane t taken) ∧
        ∀ p, ¬ s'.isActiveProtocol p :=
  popAllFrames_drains (by decide) ⟨fun h => absurd h (by decide), fun h => absurd h (by decide),
    fun h => absurd h (by decide), trivial⟩

end Witness

end Multiplexer

end Hgfrr.Multiplexing
