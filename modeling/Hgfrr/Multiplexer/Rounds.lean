import Hgfrr.Multiplexer.ShortRlp
import Hgfrr.Multiplexer.Turns

/-!
# Rounds

Packets are added and frames are popped in any order. The protocols come first in
turn, so that in as many pops as there are protocols each has its turn.
-/

namespace Hgfrr.Multiplexing

open Effects

namespace Sending

inductive Event
  | add (packet : Packet)
  | pop
deriving DecidableEq

variable [Rlp]

/-- After an exception the multiplexer goes on from where it was raised. -/
def step (s : Sending) : Event → Sending
  | .add packet => (outcome (addPacket packet) s).2
  | .pop => (outcome popFrames s).2

def run (s : Sending) (events : List Event) : Sending := events.foldl step s

variable {s : Sending} {events : List Event} {event : Event}

omit [Rlp] in
theorem protocols_putQueues {protocolId : ℕ} {queues : Queues} (h : protocolId ∈ s.protocols) :
    (s.putQueues protocolId queues).protocols = s.protocols :=
  AssocMap.map_fst_assign_of_mem h

/-- Adding a packet does not move the turn. -/
theorem step_add (packet : Packet) : (s.step (.add packet)).protocols = s.protocols ∧
    (s.step (.add packet)).lastProtocol = s.lastProtocol := by
  have hadds := addPacket_adds s packet
  rw [step]
  generalize outcome (addPacket packet) s = r at hadds
  cases hadds with
  | unknown => exact ⟨rfl, rfl⟩
  | refused => exact ⟨rfl, rfl⟩
  | added _ hqueues =>
      exact ⟨protocols_putQueues (s := s.count _ _) (AssocMap.mem_map_fst_of_lookup hqueues), rfl⟩

/-- Without protocols there is no turn. -/
theorem popFrames_of_nil (h : s.protocols = []) : outcome popFrames s = (.error .index, s) := by
  have hnext : outcome nextProtocol s = (.error .index, s) := by
    rw [nextProtocol, outcome_bind, outcome_get]
    dsimp only
    rw [h]
    rcases s.lastProtocol with _ | last <;> rfl
  rw [popFrames, outcome_bind, outcome_get]
  dsimp only
  rw [outcome_bind, hnext]

/-- A pop gives the turn to the next protocol in the round. -/
theorem step_pop (h : s.Rotates) : (s.step .pop).protocols = s.protocols ∧
    (s.protocols ≠ [] → ∃ last next, s.lastProtocol = some last ∧ next ∈ s.protocols ∧
      s.protocols.idxOf next = (s.protocols.idxOf last + 1) % s.protocols.length ∧
      (s.step .pop).lastProtocol = some next) := by
  by_cases hne : s.protocols = []
  · rw [step, popFrames_of_nil hne]
    exact ⟨rfl, fun h => absurd hne h⟩
  · obtain ⟨last, next, hlast, -, hnext, hidx, hcases⟩ := popFrames_cases h hne
    rcases hcases with ⟨hout, -⟩ | ⟨p, queues, taken, queues', hsends, -, hout⟩
    · rw [step, hout]
      exact ⟨rfl, fun _ => ⟨last, next, hlast, hnext, hidx, rfl⟩⟩
    · rw [step, hout]
      exact ⟨protocols_putQueues (s := s.pass next) (AssocMap.mem_map_fst_of_lookup hsends.lookup),
        fun _ => ⟨last, next, hlast, hnext, hidx, rfl⟩⟩

/-- No step registers a protocol. -/
theorem protocols_step (h : s.Rotates) (event : Event) :
    (s.step event).protocols = s.protocols := by
  cases event with
  | add packet => exact (step_add packet).1
  | pop => exact (step_pop h).1

theorem Rotates.step (h : s.Rotates) (event : Event) : (s.step event).Rotates := by
  have hprotocols := protocols_step h event
  refine ⟨hprotocols ▸ h.nodup, fun hne => ?_⟩
  rw [hprotocols] at hne ⊢
  cases event with
  | add packet =>
      rw [(step_add packet).2]
      exact h.last hne
  | pop =>
      obtain ⟨-, next, -, hnext, -, hlast⟩ := (step_pop h).2 hne
      exact ⟨next, hnext, hlast⟩

/-- The turns go round in every run. -/
theorem Rotates.run (h : s.Rotates) (events : List Event) : (s.run events).Rotates := by
  induction events generalizing s with
  | nil => exact h
  | cons event events ih => exact ih (h.step event)

/-- Every protocol has a sequence id. -/
def Counts (s : Sending) : Prop :=
  ∀ p ∈ s.protocols, ∃ sid, s.sequenceId.lookup p = some sid ∧ sid < 2 ^ 16

omit [Rlp] in
theorem Counts.count (h : s.Counts) (p sid : ℕ) : (s.count p sid).Counts := by
  intro q hq
  by_cases heq : q = p
  · rw [heq, Sending.count, AssocMap.lookup_assign_self]
    exact ⟨_, rfl, Nat.mod_lt _ (by norm_num)⟩
  · rw [Sending.count, AssocMap.lookup_assign_of_ne heq]
    exact h q hq

theorem Counts.step (h : s.Counts) (hrotates : s.Rotates) (event : Event) :
    (s.step event).Counts := by
  have hprotocols := protocols_step hrotates event
  cases event with
  | add packet =>
      have hadds := addPacket_adds s packet
      rw [Sending.step] at hprotocols ⊢
      generalize outcome (addPacket packet) s = r at hadds hprotocols
      cases hadds with
      | unknown => exact h
      | refused => exact h.count _ _
      | added => exact fun p hp => h.count _ _ p (hprotocols ▸ hp)
  | pop =>
      by_cases hne : s.protocols = []
      · rwa [Sending.step, popFrames_of_nil hne]
      · intro p hp
        rw [hprotocols] at hp
        obtain ⟨last, next, -, -, -, -, hcases⟩ := popFrames_cases hrotates hne
        rcases hcases with ⟨hout, -⟩ | ⟨r, queues, taken, queues', -, -, hout⟩ <;>
          rw [Sending.step, hout] <;> exact h p hp

/-- The counters stay in range in every run. -/
theorem Counts.run (h : s.Counts) (hrotates : s.Rotates) (events : List Event) :
    (s.run events).Counts := by
  induction events generalizing s with
  | nil => exact h
  | cons event events ih => exact ih (h.step hrotates event) (hrotates.step event)

/-- After as many pops as it is away a protocol comes next. -/
theorem exists_turn {p k : ℕ} (h : s.Rotates) (hp : p ∈ s.protocols)
    (hk : ∀ last, s.lastProtocol = some last →
      s.protocols.idxOf p = (s.protocols.idxOf last + 1 + k) % s.protocols.length)
    (hcount : k < events.count .pop) :
    ∃ before after, events = before ++ .pop :: after ∧ ∀ last,
      (s.run before).lastProtocol = some last →
        s.protocols.idxOf p = (s.protocols.idxOf last + 1) % s.protocols.length := by
  have hne := List.ne_nil_of_mem hp
  induction events generalizing s k with
  | nil => exact absurd hcount (Nat.not_lt_zero _)
  | cons event events ih =>
      have hprotocols := protocols_step h event
      cases event with
      | add packet =>
          obtain ⟨before, after, rfl, hturn⟩ := ih (h.step (.add packet)) (hprotocols ▸ hp)
            (by rw [hprotocols, (step_add packet).2]; exact hk) (by simpa using hcount)
            (hprotocols ▸ hne)
          exact ⟨.add packet :: before, after, rfl, hprotocols ▸ hturn⟩
      | pop =>
          cases k with
          | zero => exact ⟨[], events, rfl, hk⟩
          | succ k =>
              -- a pop brings the turn one protocol nearer
              obtain ⟨last, next, hlast, hnext, hidx, hlast'⟩ := (step_pop h).2 hne
              obtain ⟨before, after, rfl, hturn⟩ := ih (k := k) (h.step .pop) (hprotocols ▸ hp)
                (by
                  intro l hl
                  obtain rfl := Option.some.inj (hlast'.symm.trans hl)
                  rw [hprotocols, hidx, hk last hlast, Nat.add_assoc (_ % _), Nat.mod_add_mod]
                  congr 1
                  omega)
                (by simpa using hcount) (hprotocols ▸ hne)
              exact ⟨.pop :: before, after, rfl, hprotocols ▸ hturn⟩

theorem protocols_run (h : s.Rotates) (events : List Event) :
    (s.run events).protocols = s.protocols := by
  induction events generalizing s with
  | nil => rfl
  | cons event events ih => exact (ih (h.step event)).trans (protocols_step h event)

theorem run_append (s : Sending) (events more : List Event) :
    s.run (events ++ more) = (s.run events).run more := List.foldl_append

/-- A pop at which the protocol is the next one: it sends, if not all that it has in front
is too large. -/
def HasTurn (s : Sending) (p : ℕ) : Prop :=
  (outcome nextProtocol s).1 = .ok p ∧ (s.Waits p ∨ ∃ queues taken queues',
    s.Sends p queues taken queues' ∧ (outcome popFrames s).1 = .ok (taken.map Prod.snd))

/-- The protocol after the last one is next. -/
theorem hasTurn_of_idxOf {p : ℕ} (h : s.Rotates) (hp : p ∈ s.protocols)
    (hturn : ∀ last, s.lastProtocol = some last →
      s.protocols.idxOf p = (s.protocols.idxOf last + 1) % s.protocols.length) :
    s.HasTurn p := by
  have hne := List.ne_nil_of_mem hp
  obtain ⟨last, next, hlast, -, hnext, hidx, hcases⟩ := popFrames_cases h hne
  obtain rfl := (List.idxOf_inj hnext).mp (hidx.trans (hturn last hlast).symm)
  refine ⟨?_, ?_⟩
  · obtain ⟨last', next', hlast', -, hnext', hidx', hout⟩ := h.next hne
    obtain rfl := Option.some.inj (hlast.symm.trans hlast')
    rw [hout, (List.idxOf_inj hnext').mp (hidx'.trans hidx.symm)]
  · rcases hcases with ⟨-, hall⟩ | ⟨p, queues, taken, queues', hsends, rfl | hwaits, hout⟩
    · exact Or.inl (hall _ hp)
    · exact Or.inr ⟨queues, taken, queues', hsends, by rw [hout]⟩
    · exact Or.inl hwaits

/-- In a round every protocol has its turn. -/
theorem exists_turn_of_count {p : ℕ} (h : s.Rotates) (hp : p ∈ s.protocols)
    (hcount : s.protocols.length ≤ events.count .pop) :
    ∃ before after, events = before ++ .pop :: after ∧ (s.run before).HasTurn p := by
  obtain ⟨last, hmem, hlast⟩ := h.last (List.ne_nil_of_mem hp)
  have hlastlt := List.idxOf_lt_length_of_mem hmem
  have hlt := List.idxOf_lt_length_of_mem hp
  -- the number of pops until it is next
  have haway : ∀ l, s.lastProtocol = some l → s.protocols.idxOf p = (s.protocols.idxOf l + 1 +
      (s.protocols.idxOf p + (s.protocols.length - (s.protocols.idxOf last + 1))) %
        s.protocols.length) % s.protocols.length := by
    intro l hl
    obtain rfl := Option.some.inj (hlast.symm.trans hl)
    rw [Nat.add_mod_mod, Nat.add_left_comm, Nat.add_sub_cancel' hlastlt, Nat.add_mod_right,
      Nat.mod_eq_of_lt hlt]
  obtain ⟨before, after, rfl, hturn⟩ := exists_turn h hp haway
    ((Nat.mod_lt _ (List.length_pos_of_mem hp)).trans_le hcount)
  have hprotocols := protocols_run h before
  exact ⟨before, after, rfl,
    hasTurn_of_idxOf (h.run before) (hprotocols ▸ hp) (hprotocols ▸ hturn)⟩

end Sending

/-! ## Registered protocols -/

namespace Multiplexer

open Sending

/-- A multiplexer with nothing to send or to decode, and with the frame cipher. -/
structure Fresh (m : Multiplexer) (frameCipher : Option RLPxSession) : Prop where
  rotates : m.Rotates
  queues : ∀ entry ∈ m.queues, entry.2 = .empty
  sequenceId : ∀ p ∈ m.protocols, m.sequenceId.lookup p = some 0
  chunkedBuffers : ∀ p ∈ m.protocols, m.chunkedBuffers.lookup p = some []
  decodeBuffer : m.decodeBuffer = []
  cachedDecodeHeader : m.cachedDecodeHeader = none
  egress : m.egress = frameCipher.map RLPxSession.egress
  frameCipher : m.frameCipher = frameCipher.map RLPxSession.ingress

variable {m : Multiplexer} {frameCipher : Option RLPxSession} {protocolId : ℕ}

theorem Fresh.counts (h : m.Fresh frameCipher) : m.Counts := fun p hp =>
  ⟨0, h.sequenceId p hp, by norm_num⟩

theorem outcome_addProtocol_of_mem (h : protocolId ∈ m.protocols) :
    outcome (addProtocol protocolId) m = (.error .assertion, m) := by
  rw [addProtocol, outcome_bind, outcome_get]
  dsimp only
  rw [outcome_bind, outcome_ofExcept, require, if_neg (not_not.mpr h)]

/-- A protocol is registered once. -/
theorem Fresh.addProtocol (h : m.Fresh frameCipher) (protocolId : ℕ) :
    (outcome (addProtocol protocolId) m).2.Fresh frameCipher ∧ ∀ p,
      p ∈ (outcome (Multiplexer.addProtocol protocolId) m).2.protocols ↔
        p ∈ m.protocols ∨ p = protocolId := by
  by_cases hmem : protocolId ∈ m.protocols
  · rw [outcome_addProtocol_of_mem hmem]
    refine ⟨h, fun p => ⟨Or.inl, ?_⟩⟩
    rintro (hp | rfl)
    · exact hp
    · exact hmem
  · have hqueues : AssocMap.assign protocolId Queues.empty m.queues =
        m.queues ++ [(protocolId, .empty)] := AssocMap.assign_of_not_mem hmem
    have hout : (outcome (Multiplexer.addProtocol protocolId) m).2 =
        { m with
          queues := m.queues ++ [(protocolId, .empty)]
          sequenceId := AssocMap.assign protocolId 0 m.sequenceId
          lastProtocol := some protocolId
          chunkedBuffers := AssocMap.assign protocolId [] m.chunkedBuffers } := by
      rw [Multiplexer.addProtocol, outcome_bind, outcome_get]
      dsimp only
      rw [outcome_bind, outcome_ofExcept, require, if_pos hmem, ← hqueues]
      rfl
    have hprotocols : (outcome (Multiplexer.addProtocol protocolId) m).2.protocols =
        m.protocols ++ [protocolId] := by
      rw [hout]
      exact List.map_append
    have hlookup : ∀ {α : Type} {map : List (ℕ × α)} {a : α},
        (∀ p ∈ m.protocols, map.lookup p = some a) →
        ∀ p ∈ m.protocols ++ [protocolId],
          (AssocMap.assign protocolId a map).lookup p = some a := by
      intro α map a hall p hp
      by_cases heq : p = protocolId
      · rw [heq, AssocMap.lookup_assign_self]
      · rw [AssocMap.lookup_assign_of_ne heq]
        apply hall
        simpa [heq] using hp
    refine ⟨⟨⟨?_, fun _ => ?_⟩, ?_, ?_, ?_, ?_, ?_, ?_, ?_⟩, fun p => by rw [hprotocols]; simp⟩
    · rw [hprotocols, ← List.concat_eq_append]
      exact h.rotates.nodup.concat hmem
    · rw [hprotocols, hout]
      exact ⟨protocolId, by simp, rfl⟩
    · rw [hout]
      exact fun entry hentry => (List.mem_append.mp hentry).elim (h.queues entry) fun hentry =>
        List.mem_singleton.mp hentry ▸ rfl
    · rw [hprotocols, hout]
      exact hlookup h.sequenceId
    · rw [hprotocols, hout]
      exact hlookup h.chunkedBuffers
    · rw [hout, h.decodeBuffer]
    · rw [hout, h.cachedDecodeHeader]
    · rw [hout, h.egress]
    · rw [hout, h.frameCipher]

theorem registered_fresh (frameCipher : Option RLPxSession) (protocols : List ℕ) :
    (registered frameCipher protocols).Fresh frameCipher ∧
      ∀ p, p ∈ (registered frameCipher protocols).protocols ↔ p ∈ protocols := by
  have hfold : ∀ (protocols : List ℕ) (m : Multiplexer), m.Fresh frameCipher →
      (protocols.foldl (fun s p => (outcome (Multiplexer.addProtocol p) s).2) m).Fresh
          frameCipher ∧
        ∀ p, p ∈ (protocols.foldl (fun s p => (outcome (Multiplexer.addProtocol p) s).2)
          m).protocols ↔ p ∈ m.protocols ∨ p ∈ protocols := by
    intro protocols
    induction protocols with
    | nil => exact fun m h => ⟨h, fun p => by simp⟩
    | cons protocolId protocols ih =>
        intro m h
        obtain ⟨hfresh, hmem⟩ := h.addProtocol protocolId
        obtain ⟨hfresh', hmem'⟩ := ih _ hfresh
        exact ⟨hfresh', fun p => by rw [List.foldl_cons, hmem', hmem, List.mem_cons, or_assoc]⟩
  have hnew : (new frameCipher).Fresh frameCipher := ⟨⟨List.nodup_nil, fun h => absurd rfl h⟩,
    fun _ h => absurd h List.not_mem_nil, fun _ h => absurd h List.not_mem_nil,
    fun _ h => absurd h List.not_mem_nil, rfl, rfl, rfl, rfl⟩
  obtain ⟨hfresh, hmem⟩ := hfold protocols (new frameCipher) hnew
  exact ⟨hfresh, fun p => (hmem p).trans (by simp [new, Sending.new, Sending.protocols])⟩

/-- In as many pops as there are protocols each one is the next in one of them, whatever
is added meanwhile. -/
theorem exists_turn_of_registered [Rlp] {protocols : List ℕ} {p : ℕ} (hp : p ∈ protocols)
    (earlier : List Event) {events : List Event}
    (hcount : (registered frameCipher protocols).protocols.length ≤ events.count .pop) :
    ∃ before after, events = before ++ .pop :: after ∧
      ((registered frameCipher protocols).run (earlier ++ before)).HasTurn p := by
  obtain ⟨hfresh, hmem⟩ := registered_fresh frameCipher protocols
  have hprotocols := protocols_run hfresh.rotates earlier
  have hrotates := hfresh.rotates.run earlier
  have hp' : p ∈ ((registered frameCipher protocols).run earlier).protocols :=
    hprotocols ▸ (hmem p).mpr hp
  obtain ⟨before, after, rfl, hturn⟩ := exists_turn_of_count hrotates hp' (hprotocols ▸ hcount)
  exact ⟨before, after, rfl, by rwa [run_append]⟩

section Witness

attribute [local instance] shortRlp

/-- Of two protocols with frames the second has its turn in the second pop, and sends. -/
theorem exists_turn_of_two :
    (∃ before after, [Event.pop, .pop] = before ++ .pop :: after ∧
      ((registered none [1, 2]).run
        ([.add ⟨1, 0, [5], false⟩, .add ⟨2, 0, [6, 7], false⟩] ++ before)).HasTurn 2) ∧
      (outcome popFrames ((registered none [1, 2]).run
        [.add ⟨1, 0, [5], false⟩, .add ⟨2, 0, [6, 7], false⟩, .pop])).1 =
          .ok [⟨2, 0, [6, 7], some 0, false, none⟩] :=
  ⟨exists_turn_of_registered (by decide) _ (by decide), by decide +kernel⟩

end Witness

end Multiplexer

end Hgfrr.Multiplexing
