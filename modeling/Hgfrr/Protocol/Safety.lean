import Hgfrr.Protocol.RingPass
import Hgfrr.Protocol.Network
import Hgfrr.Topology.Tables
import Hgfrr.Wire.Scanner

/-!
# Messages that are handled safely

The type, the level and the order of a message come from the wire unchecked. A
handler ends without failure exactly when the levels it is led to have an entry
in the arrays of segments, and no step of the tree leaves the peer list by more
than the one wrap-around takes back.
-/

namespace Hgfrr

open Emission

/-- Whatever order a pass over a ring begins with, the loop ends, and it makes the
steps for the powers beyond the order that stay below the last position. -/
theorem ringSteps_ends {k : ℕ} (hk : 2 ≤ k) (endId order vectorId : ℤ) (fuel : ℕ)
    {i : ℕ} (hpos : 0 < fuel) (hfuel : endId - order < i + fuel) :
    ∃ steps, ringSteps endId order vectorId k fuel i = .ok steps ∧
      ∀ step, step ∈ steps ↔ ∃ j, i ≤ j ∧ order + (k : ℤ) ^ j ≤ endId ∧ order < (k : ℤ) ^ j ∧
        step = ⟨order + (k : ℤ) ^ j, wrapTarget vectorId ((k : ℤ) ^ j) endId⟩ := by
  induction fuel generalizing i with
  | zero => omega
  | succ fuel ih =>
      have hpow : (i : ℤ) < (k : ℤ) ^ i := by exact_mod_cast Nat.lt_pow_self (by omega)
      -- a later exponent is the present one, or one that the rest of the loop meets
      have hsplit {P : ℕ → Prop} : (∃ j, i ≤ j ∧ P j) ↔ P i ∨ ∃ j, i + 1 ≤ j ∧ P j := by
        constructor
        · rintro ⟨j, hj, hP⟩
          rcases hj.eq_or_lt with rfl | hlt
          · exact Or.inl hP
          · exact Or.inr ⟨j, hlt, hP⟩
        · rintro (hP | ⟨j, hj, hP⟩)
          · exact ⟨i, le_rfl, hP⟩
          · exact ⟨j, by omega, hP⟩
      unfold ringSteps
      split
      next hsize =>
        obtain ⟨rest, hrest, hmem⟩ := ih (i := i + 1) (by omega) (by push_cast at *; omega)
        split
        next hskip =>
          refine ⟨rest, hrest, ?_⟩
          intro step
          rw [hmem, hsplit]
          exact ⟨Or.inr, fun h => h.resolve_left fun h => absurd h.2.1 (not_lt.mpr hskip)⟩
        next hstep =>
          refine ⟨_, by rw [hrest]; rfl, ?_⟩
          intro step
          rw [List.mem_cons, hmem, hsplit]
          refine or_congr ⟨fun h => ⟨hsize, not_le.mp hstep, h⟩, fun h => h.2.2⟩ Iff.rfl
      next hsize =>
        refine ⟨[], rfl, ?_⟩
        intro step
        refine iff_of_false (by simp) ?_
        rintro ⟨j, hj, hle, -⟩
        have hmono : (k : ℤ) ^ i ≤ (k : ℤ) ^ j := by
          exact_mod_cast Nat.pow_le_pow_right (by omega) hj
        omega

section Handlers

variable {pm : PeerManager} (hbuilt : NodeTable.Built pm.node.id pm.nodeTable.tables)
  {level : ℕ} {data : Str} {rand : ℕ}

theorem NodeTable.Built.hasRings {table : NodeTable} {id : Str}
    (h : NodeTable.Built id table.tables) : table.HasRings := ⟨h.rings_pos, h.rings_le⟩

/-- No step of a pass at `order` leads further than one round of the ring. Without a
ring, and in an empty one, the last position is `-1`, and so is the own. -/
def PeerManager.StaysInRing (pm : PeerManager) (level : ℕ) (order : ℤ) : Prop :=
  ∀ endId vectorId, pm.nodeTable.getPeerListSize level = .ok endId →
    pm.nodeTable.getNodeIdInVector level pm.node.id = .ok vectorId →
      ∀ i : ℕ, order + 2 ^ i ≤ endId → vectorId + 2 ^ i ≤ 2 * endId + 1

include hbuilt

/-- The positions that can be looked up are those up to the last one. -/
theorem exists_positions (level : ℕ) :
    ∃ endId vectorId, pm.nodeTable.getPeerListSize level = .ok endId ∧
      pm.nodeTable.getNodeIdInVector level pm.node.id = .ok vectorId ∧
      -1 ≤ vectorId ∧ vectorId ≤ endId ∧ ∀ step : RingStep,
        (0 ≤ step.targetNodeIdInVector ∧ step.targetNodeIdInVector ≤ endId →
          ∃ receiver, pm.receiverOf level step = .ok receiver ∧
            idSingleStart ≤ receiver.id.length) ∧
        (∀ receiver, pm.receiverOf level step = .ok receiver →
          0 ≤ step.targetNodeIdInVector ∧ step.targetNodeIdInVector ≤ endId) := by
  have hrings := hbuilt.hasRings
  cases hring : pm.nodeTable.tables[level]? with
  | none =>
      refine ⟨-1, -1, hrings.getPeerListSize_of_none hring,
        hrings.getNodeIdInVector_of_none hring _, le_rfl, le_rfl, fun step => ⟨by omega, ?_⟩⟩
      intro receiver hreceiver
      rw [PeerManager.receiverOf, NodeTable.getPeerByOrder,
        if_pos (hrings.getTopLevel_lt_iff.mpr hring)] at hreceiver
      exact absurd hreceiver (by simp [bind, Except.bind])
  | some ring =>
      have hlength : ring.peerIds.length = ring.peerList.length := List.length_map _
      have hplace := Overlay.place_lt ring.peerIds pm.node.id
      rw [hlength] at hplace
      refine ⟨_, _, hrings.getPeerListSize_of_some hring,
        hrings.getNodeIdInVector_of_some hring _, ?_, ?_, fun step => ⟨?_, ?_⟩⟩
      · rw [place_eq]
        exact Overlay.neg_one_le_place _ _
      · rw [place_eq]
        omega
      · rintro ⟨hlow, hhigh⟩
        obtain ⟨receiver, hreceiver⟩ : ∃ receiver,
            ring.peerList[step.targetNodeIdInVector.toNat]? = some receiver :=
          ⟨_, List.getElem?_eq_getElem (by omega)⟩
        refine ⟨receiver, ?_, hbuilt.long_peers ring (List.mem_of_getElem? hring) receiver
          (List.mem_of_getElem? hreceiver)⟩
        rw [PeerManager.receiverOf, hrings.getPeerByOrder_of_some hring hlow hreceiver]
        rfl
      · intro receiver hreceiver
        rw [PeerManager.receiverOf, NodeTable.getPeerByOrder,
          if_neg (by simp [hrings.getTopLevel_lt_iff, hring]), NodeTable.ringAt, hring] at hreceiver
        simp only [bind, Except.bind] at hreceiver
        rcases lt_or_ge step.targetNodeIdInVector 0 with hneg | hneg
        · rw [if_pos hneg] at hreceiver
          cases hreceiver
        · rw [if_neg (not_lt.mpr hneg)] at hreceiver
          cases hget : ring.peerList[step.targetNodeIdInVector.toNat]? with
          | none =>
              rw [hget] at hreceiver
              cases hreceiver
          | some node =>
              have := (List.getElem?_eq_some_iff.mp hget).1
              omega

/-- A pass from the root of a ring, or by a message without an order, stays in it. -/
theorem staysInRing_of_le (level : ℕ) {order : ℤ} (horder : -1 ≤ order) :
    pm.StaysInRing level order := by
  intro endId vectorId hend hvector i hi
  obtain ⟨endId', vectorId', hend', hvector', -, hle, -⟩ := exists_positions hbuilt level
  obtain rfl := Except.ok.inj (hend.symm.trans hend')
  obtain rfl := Except.ok.inj (hvector.symm.trans hvector')
  omega

omit hbuilt in
theorem levelToId_of_ge (hlevel : 6 ≤ level) : levelToId level = .error .undefinedBehaviour := by
  obtain ⟨n, rfl⟩ := Nat.exists_eq_add_of_le' hlevel
  rfl

omit hbuilt in
theorem levelToId_of_lt (hlevel : level < 6) :
    ∃ start length, levelToId level = .ok (start, length) ∧ start ≤ idSingleStart := by
  interval_cases level <;> exact ⟨_, _, rfl, by decide⟩

omit hbuilt in
/-- A step is sent to the node at its position. -/
theorem exists_sendStep {step : RingStep} {receiver : Node}
    (hreceiver : pm.receiverOf level step = .ok receiver)
    (hlong : idSingleStart ≤ receiver.id.length) (msg : Message) (data : Str) (sentIds : List Str) :
    ∃ call, pm.sendStep msg level data sentIds step = .ok call := by
  have hsubstr : substr receiver.id 23 9 = .ok ((receiver.id.drop 23).take 9) := substr_of_le hlong
  unfold PeerManager.sendStep
  simp only [hreceiver, hsubstr, bind, Except.bind]
  split_ifs <;> exact ⟨_, rfl⟩

/-- A pass over a ring ends without failure when its level has a segment and its
steps stay in the ring. -/
theorem broadcastWithinRing_safe_iff (msg : Message) (sentIds : List Str) :
    (pm.broadcastWithinRing msg level 2 data sentIds).failure = none ↔
      level < 6 ∧ pm.StaysInRing level msg.nodeOrder := by
  obtain ⟨endId, vectorId, hend, hvector, hlow, hhigh, hreceiver⟩ := exists_positions hbuilt level
  obtain ⟨steps, hsteps, hmem⟩ := ringSteps_ends (k := 2) (i := 0) le_rfl endId msg.nodeOrder
    vectorId ((endId - msg.nodeOrder).toNat + 1) (by omega) (by push_cast; omega)
  rcases lt_or_ge level 6 with hlevel | hlevel
  · obtain ⟨start, length, hstart, hstartLe⟩ := levelToId_of_lt hlevel
    have hself : substr pm.node.id start length = .ok ((pm.node.id.drop start).take length) :=
      substr_of_le (hstartLe.trans hbuilt.long_self)
    have hstays : pm.StaysInRing level msg.nodeOrder ↔ ∀ step ∈ steps,
        0 ≤ step.targetNodeIdInVector ∧ step.targetNodeIdInVector ≤ endId := by
      constructor
      · intro h step hstep
        obtain ⟨j, _, hle, _, rfl⟩ := (hmem step).mp hstep
        have hbound := h endId vectorId hend hvector j hle
        have hpow : (0 : ℤ) < 2 ^ j := by positivity
        simp only [wrapTarget, Nat.cast_ofNat]
        split_ifs <;> omega
      · intro h endId' vectorId' hend' hvector' i hi
        obtain rfl := Except.ok.inj (hend.symm.trans hend')
        obtain rfl := Except.ok.inj (hvector.symm.trans hvector')
        rcases le_or_gt ((2 : ℤ) ^ i) msg.nodeOrder with hskip | hstep
        · omega
        · have htarget := h _ ((hmem _).mpr ⟨i, Nat.zero_le i, hi, hstep, rfl⟩)
          simp only [wrapTarget, Nat.cast_ofNat] at htarget
          split_ifs at htarget <;> omega
    have hall : (∀ step ∈ steps, ∃ regionId, (do
          let receiver ← pm.receiverOf level step
          substr receiver.id start length) = .ok regionId) ↔ ∀ step ∈ steps,
        0 ≤ step.targetNodeIdInVector ∧ step.targetNodeIdInVector ≤ endId := by
      refine forall₂_congr fun step _ => ⟨?_, fun h => ?_⟩
      · rintro ⟨regionId, h⟩
        obtain ⟨receiver, hok, _⟩ := Except.bind_eq_ok.mp h
        exact (hreceiver step).2 receiver hok
      · obtain ⟨receiver, hok, hlong⟩ := (hreceiver step).1 h
        rw [hok]
        exact ⟨_, substr_of_le (hstartLe.trans hlong)⟩
    rw [hstays, ← hall, ← Except.exists_mapM_ok_iff]
    cases hregions : steps.mapM fun step => do
        let receiver ← pm.receiverOf level step
        substr receiver.id start length with
    | error fault =>
        unfold PeerManager.broadcastWithinRing
        simp only [bind, Except.bind] at hregions
        simp [hend, hvector, hstart, hself, hsteps, hregions, bind, Except.bind]
    | ok regionIds =>
        have hready := Except.exists_mapM_ok_iff.mp ⟨regionIds, hregions⟩
        refine iff_of_true ?_ ⟨hlevel, regionIds, rfl⟩
        unfold PeerManager.broadcastWithinRing
        simp only [bind, Except.bind] at hregions
        simp only [hend, hvector, hstart, hself, hsteps, hregions, bind, Except.bind, pure,
          Except.pure, ofExcept_ok, failure_sequence_iff, List.forall_mem_map]
        intro step hstep
        obtain ⟨receiver, hok, hlong⟩ := (hreceiver step).1 (hall.mp hready step hstep)
        obtain ⟨call, hcall⟩ := exists_sendStep hok hlong msg data _
        rw [hcall]
        rfl
  · refine iff_of_false ?_ fun h => absurd h.1 (not_lt.mpr hlevel)
    unfold PeerManager.broadcastWithinRing
    simp [hend, hvector, levelToId_of_ge hlevel, bind, Except.bind]

/-- Whether the node knows contact nodes of a level. -/
def PeerManager.KnowsContacts (pm : PeerManager) (level : ℕ) : Prop :=
  pm.nodeTable.getContactNodes level ≠ .ok []

omit hbuilt in
theorem not_knowsContacts_of_none (hrings : pm.nodeTable.HasRings)
    (hring : pm.nodeTable.tables[level]? = none) : ¬pm.KnowsContacts level :=
  not_not.mpr (hrings.getContactNodes_of_none hring)

theorem broadcastUp_safe_iff (msg : Message) :
    (pm.broadcastUp rand msg level data).failure = none ↔
      pm.KnowsContacts (ulong (level + 1)) ∨ level < 6 ∧ pm.StaysInRing level msg.nodeOrder := by
  obtain ⟨nodes, hnodes⟩ := NodeTable.exists_contactNodes hbuilt.rings_pos (ulong (level + 1))
  rw [PeerManager.broadcastUp, PeerManager.KnowsContacts, hnodes, ofExcept_ok]
  cases nodes with
  | nil =>
      rw [List.length_nil, if_pos rfl, broadcastWithinRing_safe_iff hbuilt]
      simp
  | cons node nodes =>
      obtain ⟨receiver, hreceiver⟩ : ∃ receiver,
          (node :: nodes)[rand % (node :: nodes).length]? = some receiver :=
        ⟨_, List.getElem?_eq_getElem (Nat.mod_lt _ (by simp))⟩
      rw [if_neg (by simp), hreceiver]
      simp

/-- What each relay needs. -/
def PeerManager.SafeRelay (pm : PeerManager) : Relay → Prop
  | .up msg level =>
      pm.KnowsContacts (ulong (level + 1)) ∨ level < 6 ∧ pm.StaysInRing level msg.nodeOrder
  | .withinRing msg level _ => level < 6 ∧ pm.StaysInRing level msg.nodeOrder

theorem runRelay_safe_iff (relay : Relay) :
    (pm.runRelay rand data relay).failure = none ↔ pm.SafeRelay relay := by
  cases relay with
  | up msg level => exact broadcastUp_safe_iff hbuilt msg
  | withinRing msg level sentIds => exact broadcastWithinRing_safe_iff hbuilt msg sentIds

/-- `on_receive` ends without failure when each of its relays does. -/
theorem onReceive_safe_iff_relays (msg : Message) (sentIds : List Str) :
    (pm.onReceive rand msg data sentIds).failure = none ↔
      ∃ relays, pm.controlFlow msg pm.nextMessageId sentIds = .ok relays ∧
        ∀ relay ∈ relays, pm.SafeRelay relay := by
  obtain ⟨delay, hdelay⟩ := hopDelay_ok msg.senderId hbuilt.long_self
  simp only [PeerManager.onReceive, hdelay, ofExcept_ok, failure_ofExcept_iff,
    failure_sequence_iff, List.forall_mem_map, runRelay_safe_iff hbuilt]

/-- The rings below are started safely as long as there are segments for them. -/
theorem safe_downwards_iff (msg : Message) (messageId : Str) (levels : List ℕ) :
    (∀ relay ∈ pm.downwards msg messageId levels, pm.SafeRelay relay) ↔
      ∀ level ∈ levels, level < 6 := by
  simp only [PeerManager.downwards, List.forall_mem_map, PeerManager.SafeRelay,
    Message.setNodeOrder_nodeOrder, staysInRing_of_le hbuilt _ (by decide : (-1 : ℤ) ≤ 0), and_true]

/-- Asking the ring above for a level without a ring. The level after the last one
is zero. -/
theorem safe_up_iff (hlevel : level < 2 ^ 64) (hring : pm.nodeTable.tables[level]? = none)
    {msg : Message} (horder : -1 ≤ msg.nodeOrder) :
    pm.SafeRelay (.up msg level) ↔ level < 6 ∨ level = 2 ^ 64 - 1 ∧ pm.KnowsContacts 0 := by
  simp only [PeerManager.SafeRelay, staysInRing_of_le hbuilt level horder, and_true]
  by_cases hlast : level = 2 ^ 64 - 1
  · have hzero : ulong ((level : ℤ) + 1) = 0 := by
      simp only [ulong]
      omega
    rw [hzero]
    exact ⟨fun h => h.symm.imp_right fun h => ⟨hlast, h⟩, fun h => h.symm.imp_left And.right⟩
  · have hnext : ulong ((level : ℤ) + 1) = level + 1 := by
      exact_mod_cast ulong_of_lt (n := level + 1) (by omega)
    have hnone : pm.nodeTable.tables[level + 1]? = none := by
      rw [List.getElem?_eq_none_iff] at hring ⊢
      omega
    rw [hnext]
    exact ⟨fun h => h.elim
        (fun hknows => absurd hknows (not_knowsContacts_of_none hbuilt.hasRings hnone)) Or.inl,
      fun h => h.elim Or.inr fun h => absurd h.1 hlast⟩

/-- The start of a ring at the top, then of those below. -/
theorem safe_starts_iff (hlevel : level < 6) {msg new : Message} {messageId : Str}
    {sentIds : List Str} (horder : new.nodeOrder = 0) (levels : List ℕ) :
    (∀ relay ∈ Relay.withinRing new level sentIds :: pm.downwards msg messageId levels,
      pm.SafeRelay relay) ↔ ∀ level ∈ levels, level < 6 := by
  rw [List.forall_mem_cons, safe_downwards_iff hbuilt]
  refine and_iff_right ⟨hlevel, ?_⟩
  exact staysInRing_of_le hbuilt level (by omega)

/-- The messages that a node handles without failure, apart from what it sends to itself.
A level is taken modulo `2 ^ 64`, so the one before zero is the last. -/
def PeerManager.Admits (pm : PeerManager) (msg : Message) : Prop :=
  match msg.type with
  | 0 =>
      let level := ulong (msg.fromLevel + 1)
      (level < 6 ∨ level = 2 ^ 64 - 1 ∧ pm.KnowsContacts 0) ∧ (level = 0 → pm.KnowsContacts 1)
  | 1 => msg.fromLevel < 6 ∨ msg.fromLevel = 2 ^ 64 - 1 ∧ pm.KnowsContacts 0
  | 2 => msg.fromLevel < 6 ∧ pm.StaysInRing msg.fromLevel msg.nodeOrder
  | 5 => msg.fromLevel < 6 ∧ pm.StaysInRing msg.fromLevel msg.nodeOrder
  | 3 => msg.fromLevel ≤ 6
  | _ => True

section Flows

variable {msg : Message} (hlevel : msg.fromLevel < 2 ^ 64) (messageId : Str) (sentIds : List Str)
include hlevel

/-- A message from the same level. -/
theorem safe_controlFlow_same (htype : msg.type = 1) :
    (∃ relays, pm.controlFlow msg messageId sentIds = .ok relays ∧
      ∀ relay ∈ relays, pm.SafeRelay relay) ↔ pm.Admits msg := by
  obtain ⟨upper, hupper⟩ :=
    NodeTable.exists_contactNodes hbuilt.rings_pos (ulong (msg.fromLevel + 1))
  simp only [PeerManager.controlFlow, htype, hbuilt.hasRings.isContactNode_eq, hupper, bind,
    Except.bind, pure, Except.pure, PeerManager.Admits]
  cases hring : pm.nodeTable.tables[msg.fromLevel]? with
  | none =>
      simp only [Option.isSome_none, Bool.not_false, if_true, Except.ok.injEq, exists_eq_left',
        List.forall_mem_singleton]
      exact safe_up_iff hbuilt hlevel hring le_rfl
  | some ring =>
      have hsix : msg.fromLevel < 6 := by
        have := (List.getElem?_eq_some_iff.mp hring).1
        have := hbuilt.rings_le
        omega
      simp only [Option.isSome_some, Bool.not_true, Bool.false_eq_true, if_false]
      refine iff_of_true ?_ (Or.inl hsix)
      split
      next hempty =>
        refine ⟨_, rfl, (safe_starts_iff hbuilt hsix rfl _).mpr ?_⟩
        intro level hmem
        have := List.mem_range.mp (List.mem_reverse.mp hmem)
        omega
      next hne =>
        refine ⟨_, rfl, List.forall_mem_singleton.mpr (Or.inl ?_)⟩
        intro h
        rw [hupper] at h
        obtain rfl := Except.ok.inj h
        exact hne rfl

/-- A message from the level below. -/
theorem safe_controlFlow_lower (htype : msg.type = 0) :
    (∃ relays, pm.controlFlow msg messageId sentIds = .ok relays ∧
      ∀ relay ∈ relays, pm.SafeRelay relay) ↔ pm.Admits msg := by
  have hnext : ulong ((msg.fromLevel : ℤ) + 2) = ulong (ulong ((msg.fromLevel : ℤ) + 1) + 1) := by
    simp only [ulong]
    omega
  have hround : ulong ((msg.fromLevel : ℤ) + 1) = msg.fromLevel + 1 ∨
      ulong ((msg.fromLevel : ℤ) + 1) = 0 ∧ msg.fromLevel = 2 ^ 64 - 1 := by
    simp only [ulong]
    omega
  have hlt := ulong_lt ((msg.fromLevel : ℤ) + 1)
  simp only [PeerManager.controlFlow, htype, PeerManager.Admits, hnext]
  generalize ulong ((msg.fromLevel : ℤ) + 1) = level at hround hlt
  obtain ⟨upper, hupper⟩ := NodeTable.exists_contactNodes hbuilt.rings_pos (ulong (level + 1))
  simp only [hbuilt.hasRings.isContactNode_eq, hupper, bind, Except.bind, pure, Except.pure]
  cases hring : pm.nodeTable.tables[level]? with
  | none =>
      have hne : level ≠ 0 := by
        rintro rfl
        have := List.getElem?_eq_none_iff.mp hring
        have := hbuilt.rings_pos
        omega
      simp only [Option.isSome_none, Bool.not_false, if_true, Except.ok.injEq, exists_eq_left',
        List.forall_mem_singleton, hne, false_imp_iff, and_true]
      exact safe_up_iff hbuilt hlt hring le_rfl
  | some ring =>
      have hsix : level < 6 := by
        have := (List.getElem?_eq_some_iff.mp hring).1
        have := hbuilt.rings_le
        omega
      have habove : ulong ((level : ℤ) + 1) = level + 1 := by
        exact_mod_cast ulong_of_lt (n := level + 1) (by omega)
      rw [habove] at hupper
      simp only [Option.isSome_some, Bool.not_true, Bool.false_eq_true, if_false, hsix, true_or,
        true_and]
      split
      next hempty =>
        obtain rfl := List.length_eq_zero_iff.mp hempty
        simp only [Except.ok.injEq, exists_eq_left', safe_starts_iff hbuilt hsix,
          Message.setNodeOrder_nodeOrder, List.mem_reverse, List.mem_range]
        constructor
        · rintro h rfl
          have hbound := h msg.fromLevel (by omega)
          omega
        · intro h below hbelow
          have hpos : level ≠ 0 := by
            rintro rfl
            exact h rfl hupper
          omega
      next hne =>
        have hknows : pm.KnowsContacts (level + 1) := by
          intro h
          rw [hupper] at h
          obtain rfl := Except.ok.inj h
          exact hne rfl
        refine iff_of_true ⟨_, rfl, List.forall_mem_singleton.mpr (Or.inl ?_)⟩ ?_
        · rwa [habove]
        · rintro rfl
          exact hknows

/-- The control flow of a message leads to safe relays only when it is admitted. -/
theorem safe_controlFlow_iff :
    (∃ relays, pm.controlFlow msg messageId sentIds = .ok relays ∧
      ∀ relay ∈ relays, pm.SafeRelay relay) ↔ pm.Admits msg := by
  by_cases hzero : msg.type = 0
  · exact safe_controlFlow_lower hbuilt hlevel messageId sentIds hzero
  by_cases hone : msg.type = 1
  · exact safe_controlFlow_same hbuilt hlevel messageId sentIds hone
  by_cases htwo : msg.type = 2
  · simp only [PeerManager.controlFlow, PeerManager.Admits, htwo, Except.ok.injEq,
      exists_eq_left']
    rw [List.forall_mem_cons, safe_downwards_iff hbuilt]
    refine and_iff_left_of_imp fun h level hmem => ?_
    have := List.mem_range.mp (List.mem_reverse.mp hmem)
    have := h.1
    omega
  by_cases hfive : msg.type = 5
  · simp only [PeerManager.controlFlow, PeerManager.Admits, hfive, Except.ok.injEq,
      exists_eq_left', List.forall_mem_singleton]
    exact Iff.rfl
  by_cases hthree : msg.type = 3
  · simp only [PeerManager.controlFlow, PeerManager.Admits, hthree]
    split_ifs with hbottom
    · simp [hbottom]
    · simp only [Except.ok.injEq, exists_eq_left', List.forall_mem_singleton,
        PeerManager.SafeRelay, Message.mkHgfrr_nodeOrder, staysInRing_of_le hbuilt _ le_rfl,
        and_true]
      omega
  · have hflow : pm.controlFlow msg messageId sentIds = .ok [] := by
      unfold PeerManager.controlFlow
      dsimp only
      split <;> first | contradiction | rfl
    have haccepts : pm.Admits msg := by
      unfold PeerManager.Admits
      split <;> first | contradiction | trivial
    exact iff_of_true ⟨[], hflow, List.forall_mem_nil _⟩ haccepts

end Flows

end Handlers

/-- A level that was parsed is an `unsigned long`. -/
theorem fromLevel_lt_of_parseDatagram {text data : Str} {msg : Message} {sentIds : List Str}
    (h : parseDatagram text = .ok (msg, data, sentIds)) : msg.fromLevel < 2 ^ 64 := by
  obtain ⟨type, level, order, _, _, _, rfl⟩ := parseDatagram_fieldAt h
  exact ulong_lt level

end Hgfrr
