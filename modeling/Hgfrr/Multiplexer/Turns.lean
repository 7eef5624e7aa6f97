import Hgfrr.Foundation.Lanes
import Hgfrr.Multiplexer.Packets

/-!
# The turn of a protocol

The frames of a turn come from the front of the queues, they fit the window
together, and the turn ends only when the first frame of no queue fits any more.
-/

namespace Hgfrr.Multiplexing

open Effects Lanes

/-- All frames are in a queue. -/
theorem Queues.qsize_of_queue {q q' : Queues} {taken : List (QueueName × Frame)}
    (h : ∀ name, q.queue name = lane name taken ++ q'.queue name) :
    taken.length + q'.qsize = q.qsize := by
  have hlanes : ∀ l : List (QueueName × Frame), l.length =
      (lane .priority l).length + (lane .normal l).length + (lane .chunked l).length := by
    intro l
    induction l with
    | nil => rfl
    | cons entry l ih =>
        rcases entry with ⟨_ | _ | _, f⟩ <;> simp [lane_cons_of_ne, ih] <;> omega
  have hpriority := congrArg List.length (h .priority)
  have hnormal := congrArg List.length (h .normal)
  have hchunked := congrArg List.length (h .chunked)
  simp only [List.length_append, queue] at hpriority hnormal hchunked
  rw [hlanes taken, qsize, qsize]
  omega

section Turns

variable [Rlp]

namespace Turn

variable {pws n : ℕ} {q : Queues} {turn turn' : Turn} {name : QueueName}

/-- A turn that started with the queues took the frames, each from a queue. -/
structure Took (pws : ℕ) (q : Queues) (turn : Turn) (taken : List (QueueName × Frame)) : Prop where
  frames : turn.frames = taken.map Prod.snd
  queue : ∀ name, q.queue name = lane name taken ++ turn.queues.queue name
  size : turn.size = (turn.frames.map Frame.frameSize).sum
  le : turn.size ≤ pws

theorem new_took : Took pws q (new q) [] := ⟨rfl, fun _ => rfl, rfl, Nat.zero_le _⟩

/-- A frame is taken from the front of the queue, or none fits or is allowed. -/
theorem takeFrom_cases (pws : ℕ) (turn : Turn) (name : QueueName) :
    (takeFrom pws turn name = turn ∧ (turn.framesAdded ≠ 2 →
      ∀ f ∈ (turn.queues.queue name).head?, pws < turn.size + f.frameSize)) ∨
    ∃ f rest, turn.queues.queue name = f :: rest ∧ turn.size + f.frameSize ≤ pws ∧
      takeFrom pws turn name = ⟨turn.queues.set rest name, turn.frames ++ [f],
        turn.size + f.frameSize, turn.framesAdded + 1⟩ := by
  unfold takeFrom
  split
  next h => exact Or.inl ⟨rfl, fun hne => absurd h hne⟩
  next =>
    split
    next hqueue =>
      rw [hqueue]
      exact Or.inl ⟨rfl, fun _ f hf => absurd hf (by simp)⟩
    next f rest hqueue =>
      split
      next hle => exact Or.inr ⟨f, rest, hqueue, hle, rfl⟩
      next hlt =>
        refine Or.inl ⟨rfl, fun _ g hg => ?_⟩
        rw [hqueue] at hg
        obtain rfl := Option.some.inj hg
        exact not_le.mp hlt

theorem Took.takeFrom {taken : List (QueueName × Frame)} (h : Took pws q turn taken)
    (name : QueueName) :
    ∃ more, Took pws q (takeFrom pws turn name) (taken ++ more) ∧
      (Turn.takeFrom pws turn name).framesAdded = turn.framesAdded + more.length := by
  rcases takeFrom_cases pws turn name with ⟨heq, -⟩ | ⟨f, rest, hqueue, hle, heq⟩
  · exact ⟨[], by rwa [heq, List.append_nil], by rw [heq]; rfl⟩
  · refine ⟨[(name, f)], ?_, by rw [heq]; rfl⟩
    rw [heq]
    refine ⟨?_, fun other => ?_, ?_, hle⟩
    · rw [h.frames, List.map_append]
      rfl
    · by_cases hname : other = name
      · rw [hname, h.queue name, hqueue, Queues.queue_set_self, lane_append, lane_cons_self]
        simp
      · rw [h.queue other, Queues.queue_set_of_ne hname, lane_append,
          lane_cons_of_ne (Ne.symm hname), lane_nil, List.append_nil]
    · rw [h.size, List.map_append, List.sum_append]
      simp

/-- Taking from several queues in order. -/
theorem Took.foldl {taken : List (QueueName × Frame)} (names : List QueueName)
    (h : Took pws q turn taken) :
    ∃ more, Took pws q (names.foldl (Turn.takeFrom pws) turn) (taken ++ more) ∧
      (names.foldl (Turn.takeFrom pws) turn).framesAdded = turn.framesAdded + more.length := by
  induction names generalizing turn taken with
  | nil => exact ⟨[], by rwa [List.append_nil], rfl⟩
  | cons name names ih =>
      obtain ⟨more, hmore, hadded⟩ := h.takeFrom name
      obtain ⟨rest, hrest, hadded'⟩ := ih hmore
      refine ⟨more ++ rest, by rwa [← List.append_assoc], ?_⟩
      rw [List.foldl_cons, hadded', hadded, List.length_append, Nat.add_assoc]

/-- What no queue has in front: a frame that fits. -/
def Stuck (pws : ℕ) (turn : Turn) : Prop :=
  ∀ name, ∀ f ∈ (turn.queues.queue name).head?, pws < turn.size + f.frameSize

theorem foldl_framesAdded_le (pws : ℕ) (names : List QueueName) (turn : Turn) :
    turn.framesAdded ≤ (names.foldl (takeFrom pws) turn).framesAdded := by
  induction names generalizing turn with
  | nil => exact le_rfl
  | cons name names ih =>
      refine le_trans ?_ (ih _)
      rcases takeFrom_cases pws turn name with ⟨heq, -⟩ | ⟨f, rest, -, -, heq⟩ <;> rw [heq]
      exact Nat.le_succ _

/-- A cycle that takes nothing found that nothing fits. -/
theorem foldl_of_framesAdded_eq {names : List QueueName} (hne : turn.framesAdded ≠ 2)
    (h : (names.foldl (takeFrom pws) turn).framesAdded = turn.framesAdded) :
    names.foldl (takeFrom pws) turn = turn ∧
      ∀ name ∈ names, ∀ f ∈ (turn.queues.queue name).head?, pws < turn.size + f.frameSize := by
  induction names with
  | nil => exact ⟨rfl, fun _ hmem => absurd hmem List.not_mem_nil⟩
  | cons name names ih =>
      rw [List.foldl_cons] at h ⊢
      rcases takeFrom_cases pws turn name with ⟨heq, hstuck⟩ | ⟨f, rest, -, -, heq⟩
      · rw [heq] at h ⊢
        obtain ⟨hfold, hall⟩ := ih h
        exact ⟨hfold, List.forall_mem_cons.mpr ⟨hstuck hne, hall⟩⟩
      · have hle := foldl_framesAdded_le pws names (takeFrom pws turn name)
        rw [h, heq] at hle
        exact absurd hle (Nat.not_succ_le_self _)

/-- One cycle over the queues. -/
theorem Took.cycle {taken : List (QueueName × Frame)} (h : Took pws q turn taken) :
    ∃ more, Took pws q (turn.cycle pws) (taken ++ more) ∧
      (turn.cycle pws).framesAdded = more.length := by
  have h0 : Took pws q { turn with framesAdded := 0 } taken := ⟨h.frames, h.queue, h.size, h.le⟩
  obtain ⟨more, hmore, hadded⟩ := h0.foldl [.priority, .normal, .chunked]
  exact ⟨more, hmore, hadded.trans (Nat.zero_add _)⟩

/-- A cycle without a frame leaves nothing that fits. -/
theorem stuck_cycle (h : (turn.cycle pws).framesAdded = 0) : Stuck pws (turn.cycle pws) := by
  have hne : ({ turn with framesAdded := 0 } : Turn).framesAdded ≠ 2 := (Nat.succ_ne_zero 1).symm
  obtain ⟨heq, hall⟩ := foldl_of_framesAdded_eq hne h
  rw [cycle, heq]
  intro name
  apply hall
  cases name <;> decide

/-- A turn goes on until nothing fits. -/
theorem Took.cycles {taken : List (QueueName × Frame)} (h : Took pws q turn taken)
    (hn : turn.queues.qsize < n) :
    ∃ taken', Took pws q (turn.cycles pws n) taken' ∧ Stuck pws (turn.cycles pws n) := by
  induction n generalizing turn taken with
  | zero => exact absurd hn (Nat.not_lt_zero _)
  | succ n ih =>
      obtain ⟨more, hmore, hadded⟩ := h.cycle
      rw [Turn.cycles]
      split
      next =>
        split
        next hzero => exact ⟨_, hmore, stuck_cycle hzero⟩
        next hpos =>
          apply ih hmore
          have hlen := Queues.qsize_of_queue h.queue
          have hlen' := Queues.qsize_of_queue hmore.queue
          rw [List.length_append] at hlen'
          omega
      next hfull =>
        refine ⟨taken, h, fun name f hf => ?_⟩
        have hpos := f.frameSize_pos
        omega

end Turn

/-! ## Popping -/

namespace Sending

variable {s : Sending} {protocolId : ℕ} {queues : Queues}

def turn (s : Sending) (queues : Queues) : Turn :=
  (Turn.new queues).cycles (s.protocolWindowSize none) (queues.qsize + 1)

/-- A whole turn: frames in the order of their queues, until none fits. -/
theorem turn_took (s : Sending) (queues : Queues) :
    ∃ taken, Turn.Took (s.protocolWindowSize none) queues (s.turn queues) taken ∧
      Turn.Stuck (s.protocolWindowSize none) (s.turn queues) :=
  Turn.new_took.cycles (Nat.lt_succ_self _)

theorem outcome_popFramesForProtocol (h : s.queues.lookup protocolId = some queues) :
    outcome (popFramesForProtocol protocolId) s =
      (.ok (s.turn queues).frames, s.putQueues protocolId (s.turn queues).queues) := by
  rw [popFramesForProtocol, outcome_bind, outcome_get]
  dsimp only
  rw [h]
  rfl

omit [Rlp] in
theorem putQueues_of_lookup (h : s.queues.lookup protocolId = some queues) :
    s.putQueues protocolId queues = s := by
  rw [putQueues, AssocMap.assign_of_lookup h]

/-- No frame in front of a queue fits the window. -/
def Blocked (s : Sending) (queues : Queues) : Prop :=
  ∀ name, ∀ f ∈ (queues.queue name).head?, s.protocolWindowSize none < f.frameSize

/-- A turn takes something, unless the protocol is blocked. -/
theorem turn_nil_or (s : Sending) (queues : Queues) :
    (s.Blocked queues ∧ (s.turn queues).frames = [] ∧ (s.turn queues).queues = queues) ∨
      ∃ taken, taken ≠ [] ∧ ¬ s.Blocked queues ∧
        Turn.Took (s.protocolWindowSize none) queues (s.turn queues) taken := by
  obtain ⟨taken, htook, hstuck⟩ := s.turn_took queues
  cases taken with
  | nil =>
      have hqueues : (s.turn queues).queues = queues := by
        apply Queues.eq_of_queue
        intro name
        exact (htook.queue name).symm
      refine Or.inl ⟨fun name f hf => ?_, htook.frames, hqueues⟩
      have hlt := hstuck name f (by rwa [hqueues])
      rwa [htook.size, htook.frames, List.map_nil, List.map_nil, List.sum_nil, Nat.zero_add] at hlt
  | cons entry taken =>
      refine Or.inr ⟨_, List.cons_ne_nil _ _, fun hblocked => ?_, htook⟩
      obtain ⟨name, f⟩ := entry
      have hlt := hblocked name f (by rw [htook.queue name, lane_cons_self]; rfl)
      have hle := htook.le
      rw [htook.size, htook.frames, List.map_cons, List.map_cons, List.sum_cons] at hle
      exact absurd ((Nat.le_add_right _ _).trans hle) (not_le.mpr hlt)

/-- A turn takes frames from the front of the queues that together fit the window,
and all that fit. -/
theorem popFramesForProtocol_fits (s : Sending) (protocolId : ℕ) :
    match outcome (popFramesForProtocol protocolId) s with
    | (.ok frames, s') => ∃ queues taken queues', s.queues.lookup protocolId = some queues ∧
        s' = s.putQueues protocolId queues' ∧ frames = taken.map Prod.snd ∧
        (∀ name, queues.queue name = lane name taken ++ queues'.queue name) ∧
        (frames.map Frame.frameSize).sum ≤ s.protocolWindowSize none ∧
        ∀ name, ∀ f ∈ (queues'.queue name).head?,
          s.protocolWindowSize none < (frames.map Frame.frameSize).sum + f.frameSize
    | (.error e, s') => s.queues.lookup protocolId = none ∧ e = .key ∧ s' = s := by
  cases hqueues : s.queues.lookup protocolId with
  | none =>
      rw [popFramesForProtocol, outcome_bind, outcome_get]
      dsimp only
      rw [hqueues]
      exact ⟨rfl, rfl, rfl⟩
  | some queues =>
      rw [outcome_popFramesForProtocol hqueues]
      obtain ⟨taken, htook, hstuck⟩ := s.turn_took queues
      refine ⟨queues, taken, (s.turn queues).queues, rfl, rfl, htook.frames, htook.queue, ?_, ?_⟩
      · exact htook.size ▸ htook.le
      · exact htook.size ▸ hstuck

/-- All that a protocol has in front is too large. -/
def Waits (s : Sending) (protocolId : ℕ) : Prop :=
  ∀ queues ∈ s.queues.lookup protocolId, s.Blocked queues

/-- A turn of a protocol that is not blocked. -/
structure Sends (s : Sending) (protocolId : ℕ) (queues : Queues) (taken : List (QueueName × Frame))
    (queues' : Queues) : Prop where
  lookup : s.queues.lookup protocolId = some queues
  ne_nil : taken ≠ []
  not_blocked : ¬ s.Blocked queues
  queue : ∀ name, queues.queue name = lane name taken ++ queues'.queue name
  le : (taken.map fun entry => entry.2.frameSize).sum ≤ s.protocolWindowSize none

/-- The first of the protocols that does not wait has its turn. -/
theorem popFirst_cases {protocols : List ℕ} (h : ∀ p ∈ protocols, p ∈ s.protocols) :
    (outcome (popFirst protocols) s = (.ok [], s) ∧ ∀ p ∈ protocols, s.Waits p) ∨
      ∃ before p after queues taken queues', protocols = before ++ p :: after ∧
        (∀ p ∈ before, s.Waits p) ∧ s.Sends p queues taken queues' ∧
        outcome (popFirst protocols) s = (.ok (taken.map Prod.snd), s.putQueues p queues') := by
  induction protocols with
  | nil => exact Or.inl ⟨rfl, fun _ hp => absurd hp List.not_mem_nil⟩
  | cons p protocols ih =>
      obtain ⟨hp, hrest⟩ := List.forall_mem_cons.mp h
      obtain ⟨queues, hqueues⟩ := AssocMap.exists_lookup_of_mem hp
      rw [popFirst, outcome_bind, outcome_popFramesForProtocol hqueues]
      dsimp only
      rcases s.turn_nil_or queues with ⟨hblocked, hnil, hsame⟩ | ⟨taken, hne, hblocked, htook⟩
      · have hwaits : s.Waits p := fun q hq => by
          obtain rfl := Option.some.inj (hqueues.symm.trans hq)
          exact hblocked
        rw [hnil, if_neg fun hne => hne rfl, hsame, putQueues_of_lookup hqueues]
        rcases ih hrest with ⟨hout, hall⟩ | ⟨before, q, after, queues, taken, queues', rfl, hall, h⟩
        · exact Or.inl ⟨hout, List.forall_mem_cons.mpr ⟨hwaits, hall⟩⟩
        · exact Or.inr ⟨p :: before, q, after, queues, taken, queues', rfl,
            List.forall_mem_cons.mpr ⟨hwaits, hall⟩, h⟩
      · have hframes : (s.turn queues).frames ≠ [] := by
          rw [htook.frames]
          exact fun hnil => hne (List.map_eq_nil_iff.mp hnil)
        refine Or.inr ⟨[], p, protocols, queues, taken, _, rfl,
          fun _ hq => absurd hq List.not_mem_nil, ⟨hqueues, hne, hblocked, htook.queue, ?_⟩, ?_⟩
        · have hle := htook.le
          rwa [htook.size, htook.frames, List.map_map] at hle
        · rw [if_pos hframes, htook.frames]
          rfl

/-- The protocols are distinct, and one of them was the last, if there are any. -/
structure Rotates (s : Sending) : Prop where
  nodup : s.protocols.Nodup
  last : s.protocols ≠ [] → ∃ last ∈ s.protocols, s.lastProtocol = some last

omit [Rlp] in
/-- The protocol after the last one, in a round. -/
theorem following_eq {protocols : List ℕ} {last : ℕ} (hnodup : protocols.Nodup)
    (hlast : last ∈ protocols) : following protocols (some last) =
      protocols[(protocols.idxOf last + 1) % protocols.length]? := by
  have hlt := List.idxOf_lt_length_of_mem hlast
  have hgetLast : protocols.getLast? = some last ↔
      protocols.idxOf last + 1 = protocols.length := by
    rw [List.getLast?_eq_getElem?]
    constructor
    · intro h
      obtain ⟨hi, rfl⟩ := List.getElem?_eq_some_iff.mp h
      rw [hnodup.idxOf_getElem]
      omega
    · intro h
      rw [← h, Nat.add_sub_cancel, List.getElem?_idxOf hlast]
  rw [following]
  split
  next h => rw [hgetLast.mp h, Nat.mod_self, List.head?_eq_getElem?]
  next h => rw [Nat.mod_eq_of_lt (lt_of_le_of_ne hlt fun heq => h (hgetLast.mpr heq))]

/-- The state after the next protocol was passed on to. -/
def pass (s : Sending) (next : ℕ) : Sending := { s with lastProtocol := some next }

omit [Rlp] in
/-- `next_protocol` goes on by one place. -/
theorem Rotates.next (h : s.Rotates) (hne : s.protocols ≠ []) :
    ∃ last next, s.lastProtocol = some last ∧ last ∈ s.protocols ∧ next ∈ s.protocols ∧
      s.protocols.idxOf next = (s.protocols.idxOf last + 1) % s.protocols.length ∧
      outcome nextProtocol s = (.ok next, s.pass next) := by
  obtain ⟨last, hmem, hlast⟩ := h.last hne
  have hlt : (s.protocols.idxOf last + 1) % s.protocols.length < s.protocols.length :=
    Nat.mod_lt _ (List.length_pos_iff.mpr hne)
  refine ⟨last, s.protocols[(s.protocols.idxOf last + 1) % s.protocols.length], hlast, hmem,
    List.getElem_mem hlt, h.nodup.idxOf_getElem _ hlt, ?_⟩
  rw [nextProtocol, outcome_bind, outcome_get]
  dsimp only
  rw [hlast, following_eq h.nodup hmem, List.getElem?_eq_getElem hlt]
  rfl

/-- The protocol that is next comes first. -/
theorem popFrames_cases (h : s.Rotates) (hne : s.protocols ≠ []) :
    ∃ last next, s.lastProtocol = some last ∧ last ∈ s.protocols ∧ next ∈ s.protocols ∧
      s.protocols.idxOf next = (s.protocols.idxOf last + 1) % s.protocols.length ∧
      ((outcome popFrames s = (.ok [], s.pass next) ∧ ∀ p ∈ s.protocols, s.Waits p) ∨
        ∃ p queues taken queues', s.Sends p queues taken queues' ∧ (p = next ∨ s.Waits next) ∧
          outcome popFrames s = (.ok (taken.map Prod.snd), (s.pass next).putQueues p queues')) := by
  obtain ⟨last, next, hlast, hmem, hnext, hidx, hout⟩ := h.next hne
  refine ⟨last, next, hlast, hmem, hnext, hidx, ?_⟩
  -- the protocols are asked from the next on and then from the first
  have hrotate : ∀ p, p ∈ s.protocols ↔ p ∈ s.protocols.drop (s.protocols.idxOf next) ++
      s.protocols.take (s.protocols.idxOf next) := by
    intro p
    rw [List.mem_append, or_comm, ← List.mem_append, List.take_append_drop]
  have hhead : (s.protocols.drop (s.protocols.idxOf next) ++
      s.protocols.take (s.protocols.idxOf next)).head? = some next := by
    rw [List.head?_append, List.head?_drop, List.getElem?_idxOf hnext]
    rfl
  rw [popFrames, outcome_bind, outcome_get]
  dsimp only
  rw [outcome_bind, hout]
  dsimp only
  rcases popFirst_cases (s := s.pass next) (fun p hp => (hrotate p).mpr hp) with
    ⟨hnone, hall⟩ | ⟨before, p, after, queues, taken, queues', heq, hall, hsends, hsome⟩
  · exact Or.inl ⟨hnone, fun p hp => hall p ((hrotate p).mp hp)⟩
  · refine Or.inr ⟨p, queues, taken, queues', ⟨hsends.1, hsends.2, hsends.3, hsends.4, hsends.5⟩,
      ?_, hsome⟩
    rw [heq] at hhead
    cases before with
    | nil => exact Or.inl (Option.some.inj hhead)
    | cons q before =>
        obtain rfl := Option.some.inj hhead
        exact Or.inr (hall _ List.mem_cons_self)

end Sending

end Turns

namespace Sending

section Witness

attribute [local instance] shortRlp

/-- A frame of each queue, of which two fit the window. -/
def threeFrames : Queues :=
  ⟨[⟨1, 0, [5], some 0, false, none⟩], [⟨1, 0, List.replicate 5000 6, some 1, false, none⟩],
    [⟨1, 0, List.replicate 4000 7, some 2, false, none⟩]⟩

theorem popFramesForProtocol_fits_three :
    ∃ (taken : List (QueueName × Frame)) (queues' : Queues),
      taken.map (fun entry => entry.2.sequenceId) = [some 0, some 1] ∧
      (∀ name, threeFrames.queue name = lane name taken ++ queues'.queue name) ∧
      ∀ name, ∀ f ∈ (queues'.queue name).head?,
        maxWindowSize < (taken.map fun entry => entry.2.frameSize).sum + f.frameSize := by
  have hout : (outcome (popFramesForProtocol 1) ⟨[(1, threeFrames)], [(1, 3)], some 1⟩).1.map
      (List.map Frame.sequenceId) = .ok [some 0, some 1] := by
    decide +kernel
  have hwindow : protocolWindowSize ⟨[(1, threeFrames)], [(1, 3)], some 1⟩ none =
      maxWindowSize := by
    decide
  generalize threeFrames = waiting at hout hwindow ⊢
  have hfits := popFramesForProtocol_fits ⟨[(1, waiting)], [(1, 3)], some 1⟩ 1
  revert hout hfits
  rcases outcome (popFramesForProtocol 1) ⟨[(1, waiting)], [(1, 3)], some 1⟩ with
    ⟨e | frames, s'⟩ <;> intro hout hfits
  · exact absurd hout error_ne_ok
  · obtain ⟨queues, taken, queues', hqueues, -, rfl, hqueue, -, hmax⟩ := hfits
    obtain rfl : waiting = queues := Option.some.inj hqueues
    have hids := Except.ok.inj hout
    rw [List.map_map] at hids
    rw [hwindow, List.map_map] at hmax
    exact ⟨taken, queues', hids, hqueue, hmax⟩

end Witness

end Sending

end Hgfrr.Multiplexing
