import Hgfrr.Protocol.Safety

/-!
# The choice of the next hop

Three routines pick a random contact node: to start a broadcast, to take it to the
ring above and to take it to the ring below. What may go wrong in them is told apart
here: a division by zero, an iterator past the end, and a null pointer.
-/

namespace Hgfrr

/-- The routines that choose a contact node. -/
inductive HopRoutine
  | broadcast
  | up
  | down
deriving DecidableEq, Repr

inductive HopHazard
  | moduloByZero
  | pastTheEnd
  | nullReceiver
deriving DecidableEq, Repr

namespace HopRoutine

variable (pm : PeerManager) (rand : ℕ) (msg : Message) (level : ℕ) (data : Str)

/-- The contact nodes that a routine chooses from: of the own ring, of the one above
or of the one below. -/
def consulted : HopRoutine → Except Fault (List Node)
  | .broadcast => pm.nodeTable.getContactNodes 0
  | .up => pm.nodeTable.getContactNodes (ulong (level + 1))
  | .down => pm.nodeTable.getContactNodes (ulong ((level : ℤ) - 1))

def run : HopRoutine → Sends
  | .broadcast => (pm.broadcast rand data).2
  | .up => pm.broadcastUp rand msg level data
  | .down => pm.broadcastDown rand msg level data

/-- Null receivers in the pass over a ring that `broadcast_up` makes at the top. -/
def passHazards : List HopHazard :=
  let steps : Except Fault (List RingStep) := do
    let endId ← pm.nodeTable.getPeerListSize level
    let vectorId ← pm.nodeTable.getNodeIdInVector level pm.node.id
    ringSteps endId msg.nodeOrder vectorId 2 ((endId - msg.nodeOrder).toNat + 1) 0
  match steps with
  | .error _ => []
  | .ok steps => steps.filterMap fun step =>
      if pm.nodeTable.getPeerByOrder level step.targetNodeIdInVector = .ok none then
        some .nullReceiver
      else none

/-- The hazards that a routine runs into, for a set of contact nodes. -/
def hazards (contactNodes : List Node) : HopRoutine → List HopHazard
  | .broadcast =>
      -- the upper end is the size less one, and `random_num_in_range` adds one again
      let high : ℤ := contactNodes.length - 1
      if high - 0 + 1 = 0 then [.moduloByZero]
      else if contactNodes.length ≤ (Int.tmod rand (high - 0 + 1) + 0).toNat then [.pastTheEnd]
      else []
  | .up =>
      if contactNodes.length = 0 then passHazards pm msg level
      else if contactNodes.length ≤ rand % contactNodes.length then [.nullReceiver]
      else []
  | .down =>
      if contactNodes.length ≠ 0 then []
      else if contactNodes.length = 0 then [.moduloByZero]
      else if contactNodes.length ≤ rand % contactNodes.length then [.nullReceiver]
      else []

/-- One message goes to a contact node whenever there is one, to each of them for some
random value. Without contact nodes nothing goes wrong. -/
structure Sound (routine : HopRoutine) (contactNodes : List Node) : Prop where
  sends_one : contactNodes ≠ [] → ∀ rand, ∃ receiver ∈ contactNodes, ∃ call,
    routine.run pm rand msg level data = ⟨[call], none⟩ ∧ call.receiver = receiver ∧
      call.msg.receiverId = receiver.id
  reaches_all : contactNodes ≠ [] → ∀ receiver ∈ contactNodes, ∃ rand call,
    routine.run pm rand msg level data = ⟨[call], none⟩ ∧ call.receiver = receiver
  no_hazard : contactNodes = [] → ∀ rand, routine.hazards pm rand msg level contactNodes = []

section Failures

variable {pm : PeerManager} {rand level : ℕ} {msg : Message} {data : Str} {fault : Fault}
  {endId vectorId : ℤ} {steps : List RingStep} {contactNodes : List Node}

/-- Looking up a ring fails only at a level that the table does not have. -/
theorem fault_of_ringAt (h : pm.nodeTable.ringAt level = .error fault) : fault = .outOfRange := by
  unfold NodeTable.ringAt at h
  split at h
  next => cases h
  next => exact (Except.error.inj h).symm

theorem fault_of_map_ringAt {α : Type} {f : Ring → α}
    (h : (pm.nodeTable.ringAt level).map f = .error fault) : fault = .outOfRange := by
  cases hring : pm.nodeTable.ringAt level with
  | error fault' =>
      rw [hring] at h
      obtain rfl := Except.error.inj h
      exact fault_of_ringAt hring
  | ok ring =>
      rw [hring] at h
      cases h

theorem fault_of_getPeerListSize (h : pm.nodeTable.getPeerListSize level = .error fault) :
    fault = .outOfRange := by
  unfold NodeTable.getPeerListSize at h
  split at h
  next => cases h
  next => exact fault_of_map_ringAt h

theorem fault_of_getNodeIdInVector {id : Str}
    (h : pm.nodeTable.getNodeIdInVector level id = .error fault) : fault = .outOfRange := by
  unfold NodeTable.getNodeIdInVector at h
  split at h
  next => cases h
  next => exact fault_of_map_ringAt h

theorem fault_of_getPeerByOrder {order : ℤ}
    (h : pm.nodeTable.getPeerByOrder level order = .error fault) : fault = .outOfRange := by
  unfold NodeTable.getPeerByOrder at h
  split at h
  next => cases h
  next =>
    rcases Except.bind_eq_error.mp h with h | ⟨ring, _, h⟩
    · exact fault_of_ringAt h
    · dsimp only at h
      split at h
      next => exact (Except.error.inj h).symm
      next =>
        split at h
        next => cases h
        next => exact (Except.error.inj h).symm

theorem fault_of_substr {s : Str} {pos len : ℕ} (h : substr s pos len = .error fault) :
    fault = .outOfRange := by
  unfold substr at h
  split at h
  next => cases h
  next => exact (Except.error.inj h).symm

/-- Where the arrays of segments have no entry. -/
theorem le_of_levelToId (h : levelToId level = .error fault) : 6 ≤ level := by
  by_contra hlt
  obtain ⟨start, length, hok, _⟩ := levelToId_of_lt (not_le.mp hlt)
  rw [hok] at h
  cases h

/-- The steps of a pass over a ring. -/
def PassSteps (pm : PeerManager) (msg : Message) (level : ℕ) (steps : List RingStep) : Prop :=
  ∃ endId vectorId, pm.nodeTable.getPeerListSize level = .ok endId ∧
    pm.nodeTable.getNodeIdInVector level pm.node.id = .ok vectorId ∧
    ringSteps endId msg.nodeOrder vectorId 2 ((endId - msg.nodeOrder).toNat + 1) 0 = .ok steps

/-- The pass meets a null receiver exactly where one of its steps leads to it. -/
theorem passHazards_ne_nil_iff : passHazards pm msg level ≠ [] ↔ ∃ steps,
    PassSteps pm msg level steps ∧ ∃ step ∈ steps,
      pm.nodeTable.getPeerByOrder level step.targetNodeIdInVector = .ok none := by
  unfold passHazards
  dsimp only
  split
  next herror =>
    refine iff_of_false (by simp) ?_
    rintro ⟨steps, ⟨endId, vectorId, hend, hvector, hsteps⟩, _⟩
    rw [Except.bind_eq_ok.mpr ⟨endId, hend, Except.bind_eq_ok.mpr ⟨vectorId, hvector, hsteps⟩⟩]
      at herror
    cases herror
  next steps hsteps =>
    obtain ⟨endId, hend, hpass⟩ := Except.bind_eq_ok.mp hsteps
    obtain ⟨vectorId, hvector, hpass⟩ := Except.bind_eq_ok.mp hpass
    have hthese : ∀ {steps'}, PassSteps pm msg level steps' → steps' = steps := by
      rintro steps' ⟨endId', vectorId', hend', hvector', hpass'⟩
      obtain rfl := Except.ok.inj (hend.symm.trans hend')
      obtain rfl := Except.ok.inj (hvector.symm.trans hvector')
      exact Except.ok.inj (hpass'.symm.trans hpass)
    rw [ne_eq, List.filterMap_eq_nil_iff]
    constructor
    · intro h
      push Not at h
      obtain ⟨step, hstep, hsome⟩ := h
      refine ⟨steps, ⟨endId, vectorId, hend, hvector, hpass⟩, step, hstep, ?_⟩
      by_contra hnone
      exact hsome (if_neg hnone)
    · rintro ⟨steps', hsteps', step, hstep, hnone⟩ h
      obtain rfl := hthese hsteps'
      have := h step hstep
      rw [if_pos hnone] at this
      cases this

/-- Getting the peer of a step fails at a position that the ring does not have, or
with a null pointer. -/
theorem fault_of_receiverOf {step : RingStep} (h : pm.receiverOf level step = .error fault) :
    fault = .outOfRange ∨
      pm.nodeTable.getPeerByOrder level step.targetNodeIdInVector = .ok none := by
  rcases Except.bind_eq_error.mp h with h | ⟨peer, hpeer, h⟩
  · exact Or.inl (fault_of_getPeerByOrder h)
  · cases peer with
    | none => exact Or.inr hpeer
    | some receiver => cases h

/-- A pass over a ring fails at a position that a list or a text does not have, at a
level without a segment, or at a null receiver. -/
theorem fault_of_broadcastWithinRing {sentIds : List Str}
    (h : (pm.broadcastWithinRing msg level 2 data sentIds).failure = some fault) :
    fault = .outOfRange ∨ 6 ≤ level ∨ passHazards pm msg level ≠ [] := by
  rcases Emission.failure_ofExcept_eq_some.mp h with h | ⟨⟨steps, sentIds'⟩, hprepared, h⟩
  · rcases Except.bind_eq_error.mp h with h | ⟨endId, hend, h⟩
    · exact Or.inl (fault_of_getPeerListSize h)
    rcases Except.bind_eq_error.mp h with h | ⟨vectorId, hvector, h⟩
    · exact Or.inl (fault_of_getNodeIdInVector h)
    rcases Except.bind_eq_error.mp h with h | ⟨⟨start, length⟩, _, h⟩
    · exact Or.inr (Or.inl (le_of_levelToId h))
    rcases Except.bind_eq_error.mp h with h | ⟨thisId, _, h⟩
    · exact Or.inl (fault_of_substr h)
    obtain ⟨steps, hsteps, _⟩ := ringSteps_ends (i := 0) le_rfl endId msg.nodeOrder vectorId
      ((endId - msg.nodeOrder).toNat + 1) (by omega) (by push_cast; omega)
    rw [hsteps, Except.ok_bind] at h
    rcases Except.bind_eq_error.mp h with h | ⟨regionIds, _, h⟩
    · obtain ⟨step, hstep, h⟩ := Except.mapM_eq_error h
      rcases Except.bind_eq_error.mp h with h | ⟨receiver, _, h⟩
      · exact (fault_of_receiverOf h).imp_right fun hnone =>
          Or.inr (passHazards_ne_nil_iff.mpr
            ⟨steps, ⟨endId, vectorId, hend, hvector, hsteps⟩, step, hstep, hnone⟩)
      · exact Or.inl (fault_of_substr h)
    · cases h
  · -- the sends look up the same receivers once more
    obtain ⟨endId, hend, hprepared⟩ := Except.bind_eq_ok.mp hprepared
    obtain ⟨vectorId, hvector, hprepared⟩ := Except.bind_eq_ok.mp hprepared
    obtain ⟨segment, _, hprepared⟩ := Except.bind_eq_ok.mp hprepared
    obtain ⟨thisId, _, hprepared⟩ := Except.bind_eq_ok.mp hprepared
    obtain ⟨steps', hsteps, hprepared⟩ := Except.bind_eq_ok.mp hprepared
    obtain ⟨regionIds, _, hprepared⟩ := Except.bind_eq_ok.mp hprepared
    obtain ⟨rfl, rfl⟩ := Prod.mk.inj (Except.ok.inj hprepared)
    obtain ⟨routine, hroutine, h⟩ := Emission.exists_of_failure_sequence h
    obtain ⟨step, hstep, rfl⟩ := List.mem_map.mp hroutine
    rcases Emission.failure_ofExcept_eq_some.mp h with h | ⟨call, _, h⟩
    · rcases Except.bind_eq_error.mp h with h | ⟨receiver, _, h⟩
      · exact (fault_of_receiverOf h).imp_right fun hnone =>
          Or.inr (passHazards_ne_nil_iff.mpr
            ⟨steps', ⟨endId, vectorId, hend, hvector, hsteps⟩, step, hstep, hnone⟩)
      · split at h
        next => cases h
        next =>
          rcases Except.bind_eq_error.mp h with h | ⟨idLower, _, h⟩
          · exact Or.inl (fault_of_substr h)
          · cases h
    · cases h

/-- A null receiver ends the pass. -/
theorem broadcastWithinRing_fails {sentIds : List Str} (h : passHazards pm msg level ≠ []) :
    (pm.broadcastWithinRing msg level 2 data sentIds).failure ≠ none := by
  intro hends
  obtain ⟨steps, ⟨endId, vectorId, hend, hvector, hsteps⟩, step, hstep, hnone⟩ :=
    passHazards_ne_nil_iff.mp h
  obtain ⟨_, hprepared, _⟩ := Emission.failure_ofExcept_iff.mp hends
  obtain ⟨endId', hend', hprepared⟩ := Except.bind_eq_ok.mp hprepared
  obtain rfl := Except.ok.inj (hend.symm.trans hend')
  obtain ⟨vectorId', hvector', hprepared⟩ := Except.bind_eq_ok.mp hprepared
  obtain rfl := Except.ok.inj (hvector.symm.trans hvector')
  obtain ⟨segment, _, hprepared⟩ := Except.bind_eq_ok.mp hprepared
  obtain ⟨thisId, _, hprepared⟩ := Except.bind_eq_ok.mp hprepared
  obtain ⟨steps', hsteps', hprepared⟩ := Except.bind_eq_ok.mp hprepared
  obtain rfl := Except.ok.inj (hsteps.symm.trans hsteps')
  obtain ⟨regionIds, hregions, _⟩ := Except.bind_eq_ok.mp hprepared
  obtain ⟨regionId, hregion⟩ := Except.exists_mapM_ok_iff.mp ⟨regionIds, hregions⟩ step hstep
  obtain ⟨receiver, hreceiver, _⟩ := Except.bind_eq_ok.mp hregion
  rw [PeerManager.receiverOf, hnone, Except.ok_bind] at hreceiver
  cases hreceiver

/-- The hazards are those of the routine: each of them ends it, and apart from them it
only fails at a position that a list or a text does not have, or at a level without a
segment. -/
theorem run_fails (routine : HopRoutine)
    (hconsulted : routine.consulted pm level = .ok contactNodes) :
    (routine.hazards pm rand msg level contactNodes ≠ [] →
      (routine.run pm rand msg level data).failure ≠ none) ∧
    ∀ fault, (routine.run pm rand msg level data).failure = some fault →
      fault = .outOfRange ∨ 6 ≤ level ∨ routine.hazards pm rand msg level contactNodes ≠ [] := by
  cases routine with
  | broadcast =>
      simp only [consulted] at hconsulted
      simp only [run, PeerManager.broadcast, hconsulted, Emission.ofExcept_ok, hazards,
        randomNumInRange]
      split
      next => simp
      next =>
        rw [Emission.ofExcept_ok]
        generalize (Int.tmod rand (contactNodes.length - 1 - 0 + 1) + 0).toNat = position
        cases hpick : contactNodes[position]? with
        | none => simp [List.getElem?_eq_none_iff.mp hpick]
        | some receiver => simp [(List.getElem?_eq_some_iff.mp hpick).1]
  | up =>
      simp only [consulted] at hconsulted
      simp only [run, PeerManager.broadcastUp, hconsulted, Emission.ofExcept_ok, hazards]
      split
      next => exact ⟨broadcastWithinRing_fails, fun fault => fault_of_broadcastWithinRing⟩
      next =>
        cases hpick : contactNodes[rand % contactNodes.length]? with
        | none => simp [List.getElem?_eq_none_iff.mp hpick]
        | some receiver => simp [(List.getElem?_eq_some_iff.mp hpick).1]
  | down =>
      simp only [consulted] at hconsulted
      simp only [run, PeerManager.broadcastDown, hconsulted, Emission.ofExcept_ok, hazards]
      split <;> simp_all

end Failures

section Choice

variable {pm : PeerManager} {msg : Message} {level : ℕ} {data : Str} {contactNodes : List Node}

theorem exists_pick (hne : contactNodes ≠ []) (rand : ℕ) :
    ∃ receiver ∈ contactNodes, contactNodes[rand % contactNodes.length]? = some receiver := by
  have hlt : rand % contactNodes.length < contactNodes.length :=
    Nat.mod_lt _ (List.length_pos_of_ne_nil hne)
  exact ⟨_, List.getElem_mem hlt, List.getElem?_eq_getElem hlt⟩

theorem exists_rand {receiver : Node} (h : receiver ∈ contactNodes) :
    ∃ rand, contactNodes[rand % contactNodes.length]? = some receiver := by
  obtain ⟨i, hi, rfl⟩ := List.mem_iff_getElem.mp h
  exact ⟨i, by rw [Nat.mod_eq_of_lt hi, List.getElem?_eq_getElem hi]⟩

/-- A routine that sends to the contact node it picks is sound on a set that is not
empty. -/
theorem sound_of_pick {routine : HopRoutine} (hne : contactNodes ≠ []) (sent : Node → SendCall)
    (hsent : ∀ receiver, (sent receiver).receiver = receiver ∧
      (sent receiver).msg.receiverId = receiver.id)
    (hrun : ∀ rand receiver, contactNodes[rand % contactNodes.length]? = some receiver →
      routine.run pm rand msg level data = ⟨[sent receiver], none⟩) :
    routine.Sound pm msg level data contactNodes where
  sends_one := by
    intro _ rand
    obtain ⟨receiver, hmem, hpick⟩ := exists_pick hne rand
    exact ⟨receiver, hmem, sent receiver, hrun rand receiver hpick, hsent receiver⟩
  reaches_all := by
    intro _ receiver hmem
    obtain ⟨rand, hpick⟩ := exists_rand hmem
    exact ⟨rand, sent receiver, hrun rand receiver hpick, (hsent receiver).1⟩
  no_hazard := fun hnil => absurd hnil hne

theorem broadcast_sound_iff (hconsulted : pm.nodeTable.getContactNodes 0 = .ok contactNodes) :
    Sound pm msg level data .broadcast contactNodes ↔ contactNodes ≠ [] := by
  constructor
  · rintro h rfl
    exact absurd (h.no_hazard rfl 0) (by simp [hazards])
  · intro hne
    have hpos := List.length_pos_of_ne_nil hne
    refine sound_of_pick hne (fun receiver =>
      ⟨receiver, (Message.mkHgfrr (pm.numbered 16 pm.broadcastedMsgs.length) pm.nextMessageId 1 0
        pm.node.id []).setReceiverId receiver.id, data, []⟩) (fun _ => ⟨rfl, rfl⟩) ?_
    intro rand receiver hpick
    have hrandom : randomNumInRange rand 0 ((contactNodes.length : ℤ) - 1) =
        .ok ((rand % contactNodes.length : ℕ) : ℤ) := by
      rw [randomNumInRange, if_neg (by omega), Int.tmod_eq_emod_of_nonneg (Int.natCast_nonneg rand)]
      simp
    simp only [run, PeerManager.broadcast, hconsulted, Emission.ofExcept_ok, hrandom,
      Int.toNat_natCast, hpick]
    rfl

/-- Below the top a table of the own ring has no null pointers, and at a level without
a ring the loop makes no step. -/
theorem passHazards_eq_nil (hmsg : -1 ≤ msg.nodeOrder) : passHazards pm msg level = [] := by
  unfold passHazards
  dsimp only
  split
  next => rfl
  next steps hsteps =>
    rw [List.filterMap_eq_nil_iff]
    intro step hstep
    refine if_neg fun hnull => ?_
    obtain ⟨endId, hend, hsteps⟩ := Except.bind_eq_ok.mp hsteps
    obtain ⟨vectorId, _, hsteps⟩ := Except.bind_eq_ok.mp hsteps
    unfold NodeTable.getPeerByOrder at hnull
    split at hnull
    next htop =>
      rw [NodeTable.getPeerListSize, if_pos htop] at hend
      obtain rfl := Except.ok.inj hend
      rw [ringSteps, if_neg (by simp only [pow_zero]; omega)] at hsteps
      obtain rfl := Except.ok.inj hsteps
      simp at hstep
    next =>
      obtain ⟨ring, _, hnull⟩ := Except.bind_eq_ok.mp hnull
      dsimp only at hnull
      by_cases hneg : step.targetNodeIdInVector < 0
      · rw [if_pos hneg] at hnull
        cases hnull
      · rw [if_neg hneg] at hnull
        cases hpeer : ring.peerList[step.targetNodeIdInVector.toNat]? with
        | none =>
            rw [hpeer] at hnull
            cases hnull
        | some node =>
            rw [hpeer] at hnull
            cases hnull

theorem up_sound (hmsg : -1 ≤ msg.nodeOrder)
    (hconsulted : pm.nodeTable.getContactNodes (ulong (level + 1)) = .ok contactNodes) :
    Sound pm msg level data .up contactNodes := by
  by_cases hne : contactNodes = []
  · subst hne
    exact ⟨fun h => absurd rfl h, fun h => absurd rfl h, fun _ _ => passHazards_eq_nil hmsg⟩
  · have hpos := List.length_pos_of_ne_nil hne
    refine sound_of_pick hne (fun receiver =>
      ⟨receiver, msg.setReceiverId receiver.id, data, []⟩) (fun _ => ⟨rfl, rfl⟩) ?_
    intro rand receiver hpick
    simp only [run, PeerManager.broadcastUp, hconsulted, Emission.ofExcept_ok,
      if_neg (show contactNodes.length ≠ 0 by omega), hpick]
    rfl

theorem down_not_sound
    (hconsulted : pm.nodeTable.getContactNodes (ulong ((level : ℤ) - 1)) = .ok contactNodes) :
    ¬ Sound pm msg level data .down contactNodes := by
  intro h
  by_cases hne : contactNodes = []
  · subst hne
    exact absurd (h.no_hazard rfl 0) (by simp [hazards])
  · obtain ⟨receiver, _, call, hrun, _⟩ := h.sends_one hne 0
    have hpos := List.length_pos_of_ne_nil hne
    simp only [run, PeerManager.broadcastDown, hconsulted, Emission.ofExcept_ok,
      if_pos (show contactNodes.length ≠ 0 by omega)] at hrun
    exact absurd (congrArg Emission.emitted hrun) (by simp)

end Choice

end HopRoutine

/-- For which routines and contact sets the choice of a hop is sound: always upwards,
for the start of a broadcast when there are contact nodes, and never downwards.
Callers pass messages without an order of their own, which is `-1`. -/
theorem hopSelection_sound_iff {pm : PeerManager} (hrings : 0 < pm.nodeTable.tables.length)
    (routine : HopRoutine) {msg : Message} (hmsg : -1 ≤ msg.nodeOrder) (level : ℕ) (data : Str) :
    ∃ contactNodes, routine.consulted pm level = .ok contactNodes ∧
      (routine.Sound pm msg level data contactNodes ↔
        routine = .up ∨ (routine = .broadcast ∧ contactNodes ≠ [])) := by
  cases routine with
  | broadcast =>
      obtain ⟨contactNodes, hnodes⟩ := NodeTable.exists_contactNodes hrings 0
      refine ⟨contactNodes, hnodes, ?_⟩
      simpa using HopRoutine.broadcast_sound_iff hnodes
  | up =>
      obtain ⟨contactNodes, hnodes⟩ := NodeTable.exists_contactNodes hrings (ulong (level + 1))
      exact ⟨contactNodes, hnodes, by simpa using HopRoutine.up_sound hmsg hnodes⟩
  | down =>
      obtain ⟨contactNodes, hnodes⟩ :=
        NodeTable.exists_contactNodes hrings (ulong ((level : ℤ) - 1))
      exact ⟨contactNodes, hnodes, by simpa using HopRoutine.down_not_sound hnodes⟩

theorem hopSelection_sound_iff_pair :
    ∃ contactNodes, HopRoutine.broadcast.consulted (pairManager 0) 1 = .ok contactNodes ∧
      (HopRoutine.broadcast.Sound (pairManager 0) (Message.mkHgfrr [] [] 1 1 [] []) 1 []
        contactNodes ↔ HopRoutine.broadcast = .up ∨
          (HopRoutine.broadcast = .broadcast ∧ contactNodes ≠ [])) :=
  hopSelection_sound_iff (by decide) .broadcast (by decide) 1 []

/-- Downwards, a node with two contact nodes in the ring below sends nothing. -/
theorem hopSelection_down_silent : ¬ ∀ (pm : PeerManager) (routine : HopRoutine) (msg : Message)
    (level : ℕ) (data : Str) (contactNodes : List Node), 0 < pm.nodeTable.tables.length →
    msg.nodeOrder = -1 → routine.consulted pm level = .ok contactNodes →
    routine.Sound pm msg level data contactNodes := by
  intro h
  have hsound := h (pairManager 0) .down (Message.mkHgfrr [] [] 2 1 [] []) 1 []
    [districtNode 0, districtNode 1] (by decide) rfl (by decide)
  obtain ⟨_, _, call, hrun, _⟩ := hsound.sends_one (by simp) 0
  have hnone : (HopRoutine.down.run (pairManager 0) 0 (Message.mkHgfrr [] [] 2 1 [] []) 1
      []).emitted = [] := by decide
  rw [hrun] at hnone
  simp at hnone

end Hgfrr
