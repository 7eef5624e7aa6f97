import Hgfrr.Protocol.Safety

/-!
# Messages to oneself

A message that a node sends to itself is handled before `send` returns, and may lead to
further ones. Passes over a ring get on in its order, and relays upwards climb the levels,
so the recursion ends, unless a node asks itself for the level beyond the last one, which
is the lowest.
-/

namespace Hgfrr

open Emission

namespace PeerManager

variable (pm : PeerManager)

/-- `on_receive` ends without failure, whatever is drawn and whatever the clock says, with
all the messages that the node sends to itself. -/
def HandlesSafely (msg : Message) (data : Str) (sentIds : List Str) : Prop :=
  ∀ rands clock, (handler rands clock).Ends .nonTermination (pm, 0) (msg, data, sentIds)

/-- In a pass over a ring the step of an exponent goes to a receiver. -/
def StepsTo (level : ℕ) (order : ℤ) (i : ℕ) (receiver : Node) : Prop :=
  ∃ endId vectorId, pm.nodeTable.getPeerListSize level = .ok endId ∧
    pm.nodeTable.getNodeIdInVector level pm.node.id = .ok vectorId ∧
      order + 2 ^ i ≤ endId ∧ order < 2 ^ i ∧
        pm.receiverOf level ⟨order + 2 ^ i, wrapTarget vectorId (2 ^ i) endId⟩ = .ok receiver

/-- A step of a pass without an order goes round to the node itself. -/
def MeetsItself (level : ℕ) : Prop :=
  ∃ i receiver, pm.StepsTo level (-1) i receiver ∧ receiver.id = pm.node.id

/-- The node is one of its own contact nodes. -/
def MayAskItself (level : ℕ) : Prop :=
  ∃ nodes, pm.nodeTable.getContactNodes level = .ok nodes ∧ ∃ node ∈ nodes, node.id = pm.node.id

/-- The messages that a node handles safely. A level is taken modulo `2 ^ 64`, so the
one before zero is the last. -/
def Accepts (msg : Message) : Prop :=
  match msg.type with
  | 0 =>
      let level := ulong (msg.fromLevel + 1)
      (level < 6 ∨ level = 2 ^ 64 - 1 ∧ pm.KnowsContacts 0 ∧ ¬pm.MayAskItself 0) ∧
        (level = 0 → pm.KnowsContacts 1)
  | 1 => msg.fromLevel < 6 ∨ msg.fromLevel = 2 ^ 64 - 1 ∧ pm.KnowsContacts 0 ∧ ¬pm.MayAskItself 0
  | 2 => msg.fromLevel < 6 ∧ pm.StaysInRing msg.fromLevel msg.nodeOrder
  | 5 => msg.fromLevel < 6 ∧ pm.StaysInRing msg.fromLevel msg.nodeOrder
  | 3 => msg.fromLevel < 6 ∨ msg.fromLevel = 6 ∧ ¬pm.MeetsItself 5
  | _ => True

/-- How many orders are left in the ring of a level. -/
def ordersLeft (level : ℕ) (order : ℤ) : ℕ :=
  ((pm.nodeTable.getPeerListSize level).toOption.getD 0 + 1 - order).toNat

/-- What gets smaller from a message to those that the node sends to itself for it. -/
def rank (msg : Message) : ℕ ×ₗ ℕ :=
  match msg.type with
  | 0 => toLex (19 - ulong (msg.fromLevel + 1), 0)
  | 1 => toLex (20, 0)
  | 3 => toLex (7, 0)
  | _ => toLex (msg.fromLevel, pm.ordersLeft msg.fromLevel msg.nodeOrder)

/-- A message that is as safe as another one, and nearer to the end. -/
structure Descends (base msg : Message) : Prop where
  accepts : pm.Accepts msg
  fromLevel_lt : msg.fromLevel < 2 ^ 64
  rank_lt : pm.rank msg < pm.rank base

end PeerManager

/-- The call for a step of a pass. -/
structure SendCall.OfStep (msg : Message) (i : ℕ) (receiver : Node) (call : SendCall) : Prop where
  receiverId : call.msg.receiverId = receiver.id
  senderId : call.msg.senderId = msg.senderId
  type : call.msg.type = 2 ∨ call.msg.type = 5
  fromLevel : call.msg.fromLevel = msg.fromLevel
  nodeOrder : call.msg.nodeOrder = msg.nodeOrder + 2 ^ i

section Emitted

variable {pm : PeerManager} {msg base : Message} {level rand : ℕ} {data : Str}
  {sentIds : List Str} {call : SendCall}

theorem exists_ofStep {i : ℕ} {target : ℤ}
    (h : pm.sendStep msg level data sentIds ⟨msg.nodeOrder + 2 ^ i, target⟩ = .ok call) :
    ∃ receiver, pm.receiverOf level ⟨msg.nodeOrder + 2 ^ i, target⟩ = .ok receiver ∧
      call.OfStep msg i receiver := by
  unfold PeerManager.sendStep at h
  obtain ⟨receiver, hreceiver, h⟩ := Except.bind_eq_ok.mp h
  refine ⟨receiver, hreceiver, ?_⟩
  split at h <;> obtain ⟨idLower, _, h⟩ := Except.bind_eq_ok.mp h <;> obtain rfl := Except.ok.inj h
  · exact ⟨rfl, rfl, Or.inr rfl, rfl, rfl⟩
  · refine ⟨rfl, rfl, ?_, rfl, rfl⟩
    dsimp only [Message.setType_type]
    split
    · exact Or.inr rfl
    · exact Or.inl rfl

/-- A pass fails before its first call, or makes the calls of its steps one after another. -/
theorem broadcastWithinRing_cases (pm : PeerManager) (msg : Message) (level : ℕ) (data : Str)
    (sentIds : List Str) :
    (∃ fault, pm.broadcastWithinRing msg level 2 data sentIds = fail fault) ∨
      ∃ endId vectorId, ∃ steps : List RingStep, ∃ sentIdsForReceivers,
        pm.nodeTable.getPeerListSize level = .ok endId ∧
        pm.nodeTable.getNodeIdInVector level pm.node.id = .ok vectorId ∧
        (∀ step, step ∈ steps ↔ ∃ j : ℕ, msg.nodeOrder + 2 ^ j ≤ endId ∧ msg.nodeOrder < 2 ^ j ∧
          step = ⟨msg.nodeOrder + 2 ^ j, wrapTarget vectorId (2 ^ j) endId⟩) ∧
        pm.broadcastWithinRing msg level 2 data sentIds = sequence (steps.map fun step =>
          ofExcept (pm.sendStep msg level data sentIdsForReceivers step) emit) := by
  have hrefl : ofExcept _ _ = pm.broadcastWithinRing msg level 2 data sentIds := rfl
  obtain hfail | ⟨prepared, hprepared, hpass⟩ := ofExcept_cases hrefl
  · exact Or.inl hfail
  · obtain ⟨endId, hend, hprepared⟩ := Except.bind_eq_ok.mp hprepared
    obtain ⟨vectorId, hvector, hprepared⟩ := Except.bind_eq_ok.mp hprepared
    obtain ⟨⟨start, length⟩, _, hprepared⟩ := Except.bind_eq_ok.mp hprepared
    obtain ⟨thisId, _, hprepared⟩ := Except.bind_eq_ok.mp hprepared
    obtain ⟨steps, hsteps, hprepared⟩ := Except.bind_eq_ok.mp hprepared
    obtain ⟨regionIds, _, hprepared⟩ := Except.bind_eq_ok.mp hprepared
    obtain ⟨steps', hsteps', hmem⟩ := ringSteps_ends (k := 2) (i := 0) le_rfl endId msg.nodeOrder
      vectorId ((endId - msg.nodeOrder).toNat + 1) (by omega) (by push_cast; omega)
    obtain rfl := Except.ok.inj (hsteps.symm.trans hsteps')
    obtain rfl := Except.ok.inj hprepared
    exact Or.inr ⟨endId, vectorId, steps, _, hend, hvector, by simpa using hmem, hpass⟩

/-- Every call of a pass is that of one of its steps. -/
theorem exists_stepsTo (h : call ∈ (pm.broadcastWithinRing msg level 2 data sentIds).emitted) :
    ∃ i receiver, pm.StepsTo level msg.nodeOrder i receiver ∧ call.OfStep msg i receiver := by
  obtain ⟨fault, hpass⟩ |
      ⟨endId, vectorId, steps, sentIdsForReceivers, hend, hvector, hmem, hpass⟩ :=
    broadcastWithinRing_cases pm msg level data sentIds
  · simp [hpass] at h
  · rw [hpass] at h
    obtain ⟨routine, hroutine, h⟩ := mem_emitted_sequence h
    obtain ⟨step, hstep, rfl⟩ := List.mem_map.mp hroutine
    obtain ⟨call', hcall', h⟩ := mem_emitted_ofExcept h
    obtain rfl : call = call' := by simpa using h
    obtain ⟨i, hle, hlt, rfl⟩ := (hmem step).mp hstep
    obtain ⟨receiver, hreceiver, hof⟩ := exists_ofStep hcall'
    exact ⟨i, receiver, ⟨endId, vectorId, hend, hvector, hle, hlt, hreceiver⟩, hof⟩

/-- A pass that does not fail makes the call of every step. -/
theorem exists_call_of_stepsTo
    (hfailure : (pm.broadcastWithinRing msg level 2 data sentIds).failure = none) {i : ℕ}
    {receiver : Node} (h : pm.StepsTo level msg.nodeOrder i receiver) :
    ∃ call ∈ (pm.broadcastWithinRing msg level 2 data sentIds).emitted,
      call.OfStep msg i receiver := by
  obtain ⟨fault, hpass⟩ | ⟨endId', vectorId', steps, sentIdsForReceivers, hend', hvector', hmem,
    hpass⟩ := broadcastWithinRing_cases pm msg level data sentIds
  · simp [hpass] at hfailure
  · obtain ⟨endId, vectorId, hend, hvector, hle, hlt, hreceiver⟩ := h
    obtain rfl := Except.ok.inj (hend.symm.trans hend')
    obtain rfl := Except.ok.inj (hvector.symm.trans hvector')
    rw [hpass] at hfailure ⊢
    have hstep := (hmem _).mpr ⟨i, hle, hlt, rfl⟩
    have hnone := failure_sequence_iff.mp hfailure
    rw [sequence_of_no_failure hnone]
    obtain ⟨call, hcall, -⟩ := failure_ofExcept_iff.mp (hnone _ (List.mem_map_of_mem hstep))
    obtain ⟨receiver', hreceiver', hof⟩ := exists_ofStep hcall
    obtain rfl := Except.ok.inj (hreceiver.symm.trans hreceiver')
    refine ⟨call, List.mem_flatMap.mpr ⟨_, List.mem_map_of_mem hstep, ?_⟩, hof⟩
    rw [hcall]
    exact List.mem_singleton_self call

/-- A call upwards goes to a contact node, or there is none and it is one of a pass. -/
theorem of_mem_broadcastUp (h : call ∈ (pm.broadcastUp rand msg level data).emitted) :
    call ∈ (pm.broadcastWithinRing msg level 2 data []).emitted ∨
      ∃ nodes, pm.nodeTable.getContactNodes (ulong (level + 1)) = .ok nodes ∧
        ∃ receiver ∈ nodes, call.msg = msg.setReceiverId receiver.id := by
  obtain ⟨nodes, hnodes, h⟩ := mem_emitted_ofExcept h
  split at h
  next => exact Or.inl h
  next =>
    split at h
    next => simp at h
    next receiver hreceiver =>
      obtain rfl : call = _ := by simpa using h
      exact Or.inr ⟨nodes, hnodes, receiver, List.mem_of_getElem? hreceiver, rfl⟩

end Emitted

section Descent

variable {pm : PeerManager} (hbuilt : NodeTable.Built pm.node.id pm.nodeTable.tables)
  {msg base new : Message} {level rand : ℕ} {data : Str} {sentIds : List Str} {call : SendCall}

theorem PeerManager.StaysInRing.mono {order order' : ℤ} (h : pm.StaysInRing level order)
    (hle : order ≤ order') : pm.StaysInRing level order' := fun endId vectorId hend hvector i hi =>
  h endId vectorId hend hvector i (by omega)

/-- Types 2 and 5 have the same condition and the same rank. -/
theorem PeerManager.accepts_of_ring (htype : msg.type = 2 ∨ msg.type = 5) :
    (pm.Accepts msg ↔ msg.fromLevel < 6 ∧ pm.StaysInRing msg.fromLevel msg.nodeOrder) ∧
      pm.rank msg = toLex (msg.fromLevel, pm.ordersLeft msg.fromLevel msg.nodeOrder) := by
  unfold PeerManager.Accepts PeerManager.rank
  rcases htype with htype | htype <;> rw [htype] <;> exact ⟨Iff.rfl, rfl⟩

/-- A call of a pass gets on in the order of the ring, or goes back to where the level of
the message ranks lower. -/
theorem descends_of_pass
    (h : call ∈ (pm.broadcastWithinRing new level 2 data sentIds).emitted)
    (hsix : new.fromLevel < 6) (hstays : pm.StaysInRing new.fromLevel (new.nodeOrder + 1))
    (hrank : new.fromLevel < (ofLex (pm.rank base)).1 ∨ level = new.fromLevel ∧
      pm.rank base = toLex (new.fromLevel, pm.ordersLeft new.fromLevel new.nodeOrder)) :
    pm.Descends base call.msg := by
  obtain ⟨i, receiver, ⟨endId, vectorId, hend, -, hle, -, -⟩, hof⟩ := exists_stepsTo h
  obtain ⟨haccepts, hrankCall⟩ := pm.accepts_of_ring hof.type
  have hpow : (0 : ℤ) < 2 ^ i := by positivity
  rw [hof.fromLevel, hof.nodeOrder] at haccepts hrankCall
  refine ⟨haccepts.mpr ⟨hsix, hstays.mono (by omega)⟩, by rw [hof.fromLevel]; omega, ?_⟩
  rw [hrankCall, Prod.Lex.lt_iff]
  rcases hrank with hlt | ⟨rfl, hbase⟩
  · exact Or.inl hlt
  · rw [hbase]
    refine Or.inr ⟨rfl, ?_⟩
    simp only [PeerManager.ordersLeft, hend, Except.toOption, Option.getD_some, ofLex_toLex]
    omega

/-- The passes downwards begin with the root of each ring. -/
theorem descends_of_downwards {messageId : Str} {levels : List ℕ} {relay : Relay}
    (hbuilt : NodeTable.Built pm.node.id pm.nodeTable.tables)
    (hsix : ∀ level ∈ levels, level < 6 ∧ level < (ofLex (pm.rank base)).1)
    (hrelay : relay ∈ pm.downwards msg messageId levels)
    (h : call ∈ (pm.runRelay rand data relay).emitted) : pm.Descends base call.msg := by
  obtain ⟨level, hlevel, rfl⟩ := List.mem_map.mp hrelay
  obtain ⟨hlt, hrank⟩ := hsix level hlevel
  exact descends_of_pass h hlt (staysInRing_of_le hbuilt _ (by simp)) (Or.inl hrank)

include hbuilt

/-- A relay from a level without a ring, under type 1. -/
theorem descends_of_none (hlevel : level < 2 ^ 64) (hring : pm.nodeTable.tables[level]? = none)
    (hsafe : level < 6 ∧ 6 ≤ (ofLex (pm.rank base)).1 ∨ level = 2 ^ 64 - 1 ∧ ¬pm.MayAskItself 0)
    {broadcastId messageId : Str}
    (h : call ∈ (pm.broadcastUp rand
      (Message.mkHgfrr broadcastId messageId 1 level pm.node.id []) level data).emitted)
    (hown : call.msg.receiverId = call.msg.senderId) : pm.Descends base call.msg := by
  have hrings := hbuilt.hasRings
  rcases of_mem_broadcastUp h with h | ⟨nodes, hnodes, receiver, hmem, hmsg⟩
  · rcases hsafe with ⟨hsix, hrank⟩ | ⟨hlast, -⟩
    · refine descends_of_pass h hsix (staysInRing_of_le hbuilt _ (by simp)) (Or.inl ?_)
      exact lt_of_lt_of_le hsix hrank
    · -- far above all rings a pass has no steps
      obtain ⟨i, node, ⟨endId, vectorId, hend, -, hle, -⟩, -⟩ := exists_stepsTo h
      rw [hrings.getPeerListSize_of_none hring] at hend
      obtain rfl := Except.ok.inj hend
      have hpow : (0 : ℤ) < 2 ^ i := by positivity
      simp at hle
      omega
  · by_cases hlast : level = 2 ^ 64 - 1
    · have hzero : ulong ((level : ℤ) + 1) = 0 := by
        simp only [ulong]
        omega
      rw [hzero] at hnodes
      refine absurd ⟨nodes, hnodes, receiver, hmem, ?_⟩ (hsafe.elim (by omega) And.right)
      rw [hmsg] at hown
      exact hown
    · have hnext : ulong ((level : ℤ) + 1) = level + 1 := by
        exact_mod_cast ulong_of_lt (n := level + 1) (by omega)
      have hnone : pm.nodeTable.tables[level + 1]? = none := by
        rw [List.getElem?_eq_none_iff] at hring ⊢
        omega
      rw [hnext, hrings.getContactNodes_of_none hnone] at hnodes
      obtain rfl := Except.ok.inj hnodes
      simp at hmem

/-- A relay from a ring to the contact nodes above it, under type 0. -/
theorem descends_of_some (hring : pm.nodeTable.tables[level]? ≠ none)
    (hknows : pm.KnowsContacts (ulong (level + 1))) {broadcastId messageId : Str}
    (hrank : 18 - level < (ofLex (pm.rank base)).1)
    (h : call ∈ (pm.broadcastUp rand
      (Message.mkHgfrr broadcastId messageId 0 level pm.node.id []) level data).emitted) :
    pm.Descends base call.msg := by
  have hrings := hbuilt.hasRings
  have hsix := hbuilt.rings_le
  have hlt : level < pm.nodeTable.tables.length := by
    by_contra hge
    exact hring (List.getElem?_eq_none_iff.mpr (by omega))
  have hnext : ulong ((level : ℤ) + 1) = level + 1 := by
    exact_mod_cast ulong_of_lt (n := level + 1) (by omega)
  -- whoever has contact nodes at a level has a ring there
  have habove : level + 1 < 6 := by
    by_contra hge
    refine hknows ?_
    rw [hnext]
    exact hrings.getContactNodes_of_none (List.getElem?_eq_none_iff.mpr (by omega))
  obtain ⟨nodes, hnodes⟩ := NodeTable.exists_contactNodes hbuilt.rings_pos (ulong (level + 1))
  have hne : nodes.length ≠ 0 := fun hzero =>
    hknows (by rw [hnodes, List.length_eq_zero_iff.mp hzero])
  rw [PeerManager.broadcastUp, hnodes, ofExcept_ok, if_neg hne] at h
  split at h
  next => simp at h
  next receiver _ =>
    obtain rfl : call = _ := by simpa using h
    refine ⟨?_, ?_, ?_⟩
    · change (ulong ((level : ℤ) + 1) < 6 ∨ _) ∧ (ulong ((level : ℤ) + 1) = 0 → _)
      rw [hnext]
      exact ⟨Or.inl habove, fun hzero => absurd hzero (by omega)⟩
    · change level < 2 ^ 64
      omega
    · rw [Prod.Lex.lt_iff]
      refine Or.inl ?_
      change 19 - ulong ((level : ℤ) + 1) < _
      rw [hnext]
      omega

/-- The start of a ring and of all rings below. -/
theorem descends_of_starts (hsix : level < 6) (hrank : level < (ofLex (pm.rank base)).1)
    {messageId : Str} {levels : List ℕ} (hlevels : ∀ below ∈ levels, below < level) {relay : Relay}
    (hrelay : relay ∈ .withinRing
      ((Message.mkHgfrr msg.broadcastId messageId 2 level pm.node.id []).setNodeOrder 0) level
      sentIds :: pm.downwards msg messageId levels)
    (h : call ∈ (pm.runRelay rand data relay).emitted) : pm.Descends base call.msg := by
  rcases List.mem_cons.mp hrelay with rfl | hrelay
  · exact descends_of_pass h hsix (staysInRing_of_le hbuilt _ (by simp)) (Or.inl hrank)
  · refine descends_of_downwards hbuilt (fun below hbelow => ?_) hrelay h
    have := hlevels below hbelow
    omega

end Descent

section Flows

variable {pm : PeerManager} (hbuilt : NodeTable.Built pm.node.id pm.nodeTable.tables)
  {msg : Message} {rand : ℕ} {data messageId : Str} {sentIds : List Str} {relays : List Relay}
  {relay : Relay} {call : SendCall}
include hbuilt

/-- A message from the same level. -/
theorem descends_same (hlevel : msg.fromLevel < 2 ^ 64) (htype : msg.type = 1)
    (haccepts : pm.Accepts msg) (hrelays : pm.controlFlow msg messageId sentIds = .ok relays)
    (hrelay : relay ∈ relays) (h : call ∈ (pm.runRelay rand data relay).emitted)
    (hown : call.msg.receiverId = call.msg.senderId) : pm.Descends msg call.msg := by
  have hrank : pm.rank msg = toLex (20, 0) := by simp [PeerManager.rank, htype]
  simp only [PeerManager.Accepts, htype] at haccepts
  simp only [PeerManager.controlFlow, htype, hbuilt.hasRings.isContactNode_eq] at hrelays
  cases hring : pm.nodeTable.tables[msg.fromLevel]? with
  | none =>
      simp only [hring, Option.isSome_none, Bool.not_false, if_true, Except.ok.injEq] at hrelays
      obtain rfl := hrelays
      obtain rfl := List.mem_singleton.mp hrelay
      refine descends_of_none hbuilt hlevel hring ?_ h hown
      rw [hrank]
      exact haccepts.imp (fun hsix => ⟨hsix, by decide⟩) fun hlast => ⟨hlast.1, hlast.2.2⟩
  | some ring =>
      have hlt := (List.getElem?_eq_some_iff.mp hring).1
      have hsix := hbuilt.rings_le
      simp only [hring, Option.isSome_some, Bool.not_true, Bool.false_eq_true, if_false] at hrelays
      obtain ⟨upper, hupper, hrelays⟩ := Except.bind_eq_ok.mp hrelays
      split at hrelays
      next hempty =>
        obtain rfl := Except.ok.inj hrelays
        refine descends_of_starts hbuilt (hlt.trans_le hsix) ?_
          (fun below hbelow => List.mem_range.mp (List.mem_reverse.mp hbelow)) hrelay h
        rw [hrank]
        exact lt_of_lt_of_le (lt_of_lt_of_le hlt hsix) (by decide)
      next hne =>
        obtain rfl := Except.ok.inj hrelays
        obtain rfl := List.mem_singleton.mp hrelay
        refine descends_of_some hbuilt (by simp [hring]) (fun hempty => hne ?_) ?_ h
        · rw [hupper] at hempty
          exact List.length_eq_zero_iff.mpr (Except.ok.inj hempty)
        · rw [hrank]
          exact lt_of_le_of_lt (Nat.sub_le _ _) (by decide)

/-- A message from the level below. -/
theorem descends_lower (hlevel : msg.fromLevel < 2 ^ 64) (htype : msg.type = 0)
    (haccepts : pm.Accepts msg) (hrelays : pm.controlFlow msg messageId sentIds = .ok relays)
    (hrelay : relay ∈ relays) (h : call ∈ (pm.runRelay rand data relay).emitted)
    (hown : call.msg.receiverId = call.msg.senderId) : pm.Descends msg call.msg := by
  have hnext : ulong ((msg.fromLevel : ℤ) + 2) = ulong (ulong ((msg.fromLevel : ℤ) + 1) + 1) := by
    simp only [ulong]
    omega
  have hround : ulong ((msg.fromLevel : ℤ) + 1) = msg.fromLevel + 1 ∨
      ulong ((msg.fromLevel : ℤ) + 1) = 0 ∧ msg.fromLevel = 2 ^ 64 - 1 := by
    simp only [ulong]
    omega
  have hlt := ulong_lt ((msg.fromLevel : ℤ) + 1)
  have hrank : pm.rank msg = toLex (19 - ulong ((msg.fromLevel : ℤ) + 1), 0) := by
    simp [PeerManager.rank, htype]
  simp only [PeerManager.Accepts, htype] at haccepts
  simp only [PeerManager.controlFlow, htype, hbuilt.hasRings.isContactNode_eq, hnext] at hrelays
  generalize ulong ((msg.fromLevel : ℤ) + 1) = level at *
  cases hring : pm.nodeTable.tables[level]? with
  | none =>
      simp only [hring, Option.isSome_none, Bool.not_false, if_true, Except.ok.injEq] at hrelays
      obtain rfl := hrelays
      obtain rfl := List.mem_singleton.mp hrelay
      refine descends_of_none hbuilt hlt hring ?_ h hown
      rw [hrank]
      refine haccepts.1.imp (fun hsix => ⟨hsix, ?_⟩) fun hlast => ⟨hlast.1, hlast.2.2⟩
      change 6 ≤ 19 - level
      omega
  | some ring =>
      have hlength := (List.getElem?_eq_some_iff.mp hring).1
      have hsix := hbuilt.rings_le
      simp only [hring, Option.isSome_some, Bool.not_true, Bool.false_eq_true, if_false] at hrelays
      obtain ⟨upper, hupper, hrelays⟩ := Except.bind_eq_ok.mp hrelays
      split at hrelays
      next hempty =>
        obtain rfl := Except.ok.inj hrelays
        -- the level after the last one starts a ring only where there is one above
        have hbelow : msg.fromLevel < level := by
          rcases hround with hround | ⟨hzero, -⟩
          · omega
          · refine absurd ?_ (haccepts.2 hzero)
            rw [hzero] at hupper
            rw [show ulong (((0 : ℕ) : ℤ) + 1) = 1 by decide] at hupper
            rw [hupper, List.length_eq_zero_iff.mp hempty]
        refine descends_of_starts hbuilt (hlength.trans_le hsix) ?_
          (fun below hmem => ?_) hrelay h
        · rw [hrank]
          change level < 19 - level
          omega
        · have := List.mem_range.mp (List.mem_reverse.mp hmem)
          omega
      next hne =>
        obtain rfl := Except.ok.inj hrelays
        obtain rfl := List.mem_singleton.mp hrelay
        refine descends_of_some hbuilt (by simp [hring]) (fun hempty => hne ?_) ?_ h
        · rw [hupper] at hempty
          exact List.length_eq_zero_iff.mpr (Except.ok.inj hempty)
        · rw [hrank]
          change 18 - level < 19 - level
          omega

end Flows

section Steps

variable {pm : PeerManager} (hbuilt : NodeTable.Built pm.node.id pm.nodeTable.tables)
  {msg : Message} (hlevel : msg.fromLevel < 2 ^ 64) (rand : ℕ) (data : Str) (sentIds : List Str)

theorem PeerManager.Accepts.admits (h : pm.Accepts msg) : pm.Admits msg := by
  unfold PeerManager.Accepts at h
  split at h
  next htype =>
    simp only [PeerManager.Admits, htype]
    exact ⟨h.1.imp_right fun h => ⟨h.1, h.2.1⟩, h.2⟩
  next htype =>
    simp only [PeerManager.Admits, htype]
    exact h.imp_right fun h => ⟨h.1, h.2.1⟩
  next htype => simpa only [PeerManager.Admits, htype] using h
  next htype => simpa only [PeerManager.Admits, htype] using h
  next htype =>
    simp only [PeerManager.Admits, htype]
    omega
  next =>
    unfold PeerManager.Admits
    split <;> first | contradiction | trivial

include hbuilt hlevel

/-- What an accepted message leads to at the node itself is accepted, and nearer to the
end. -/
theorem onReceive_descends (haccepts : pm.Accepts msg) :
    (pm.onReceive rand msg data sentIds).failure = none ∧
      ∀ call ∈ (pm.onReceive rand msg data sentIds).emitted,
        call.msg.receiverId = call.msg.senderId → pm.Descends msg call.msg := by
  have hsafe := (safe_controlFlow_iff hbuilt hlevel pm.nextMessageId sentIds).mpr haccepts.admits
  refine ⟨(onReceive_safe_iff_relays hbuilt msg sentIds).mpr hsafe, fun call hcall hown => ?_⟩
  obtain ⟨_, _, hemitted⟩ := mem_emitted_ofExcept hcall
  obtain ⟨relays, hrelays, hsequence⟩ := mem_emitted_ofExcept hemitted
  clear hcall hemitted
  obtain ⟨routine, hroutine, hcall⟩ := mem_emitted_sequence hsequence
  obtain ⟨relay, hrelay, rfl⟩ := List.mem_map.mp hroutine
  by_cases hzero : msg.type = 0
  · exact descends_lower hbuilt hlevel hzero haccepts hrelays hrelay hcall hown
  by_cases hone : msg.type = 1
  · exact descends_same hbuilt hlevel hone haccepts hrelays hrelay hcall hown
  by_cases hring : msg.type = 2 ∨ msg.type = 5
  · -- the pass goes on, and others start below
    obtain ⟨hiff, hrank⟩ := pm.accepts_of_ring hring
    obtain ⟨hsix, hstays⟩ := hiff.mp haccepts
    have hgoes : ∀ routine : Relay, routine = .withinRing ((Message.mkHgfrr msg.broadcastId
        pm.nextMessageId 2 msg.fromLevel pm.node.id []).setNodeOrder msg.nodeOrder) msg.fromLevel
        sentIds → call ∈ (pm.runRelay rand data routine).emitted → pm.Descends msg call.msg := by
      rintro _ rfl h
      exact descends_of_pass h hsix (hstays.mono (by simp)) (Or.inr ⟨rfl, hrank⟩)
    rcases hring with htype | htype <;> simp only [PeerManager.controlFlow, htype] at hrelays <;>
      obtain rfl := Except.ok.inj hrelays
    · rcases List.mem_cons.mp hrelay with rfl | hrelay
      · exact hgoes _ rfl hcall
      · refine descends_of_downwards hbuilt (fun below hmem => ?_) hrelay hcall
        have := List.mem_range.mp (List.mem_reverse.mp hmem)
        rw [hrank]
        exact ⟨by omega, this⟩
    · obtain rfl := List.mem_singleton.mp hrelay
      exact hgoes _ rfl hcall
  by_cases hthree : msg.type = 3
  · have hrank : pm.rank msg = toLex (7, 0) := by simp [PeerManager.rank, hthree]
    simp only [PeerManager.Accepts, hthree] at haccepts
    simp only [PeerManager.controlFlow, hthree] at hrelays
    split at hrelays <;> obtain rfl := Except.ok.inj hrelays
    next => simp at hrelay
    next =>
      obtain rfl := List.mem_singleton.mp hrelay
      rcases haccepts with hsix | ⟨hsix, hnot⟩
      · refine descends_of_pass hcall hsix (staysInRing_of_le hbuilt _ (by simp)) (Or.inl ?_)
        rw [hrank]
        exact lt_trans hsix (by decide)
      · -- the pass below the level beyond the last ring does not come round
        obtain ⟨i, receiver, hsteps, hof⟩ := exists_stepsTo hcall
        refine absurd ⟨i, receiver, ?_, ?_⟩ hnot
        · simpa [hsix] using hsteps
        · rw [← hof.receiverId, hown, hof.senderId]
          rfl
  · have hflow : pm.controlFlow msg pm.nextMessageId sentIds = .ok [] := by
      unfold PeerManager.controlFlow
      dsimp only
      split <;> first | contradiction | tauto
    rw [hflow] at hrelays
    obtain rfl := Except.ok.inj hrelays
    simp at hrelay

/-- A message that is not accepted fails, or leads to another one at the node itself, if
the node is drawn wherever it can be. -/
theorem onReceive_not_accepts (hnot : ¬pm.Accepts msg)
    (hdraw : ∀ nodes, pm.nodeTable.getContactNodes 0 = .ok nodes →
      (∃ node ∈ nodes, node.id = pm.node.id) →
        ∃ node, nodes[rand % nodes.length]? = some node ∧ node.id = pm.node.id) :
    (pm.onReceive rand msg data sentIds).failure ≠ none ∨
      ∃ call ∈ (pm.onReceive rand msg data sentIds).emitted,
        call.msg.receiverId = call.msg.senderId ∧ ¬pm.Accepts call.msg ∧
          call.msg.fromLevel < 2 ^ 64 := by
  by_cases hfailure : (pm.onReceive rand msg data sentIds).failure = none
  swap
  · exact Or.inl hfailure
  right
  have hadmits := (safe_controlFlow_iff hbuilt hlevel pm.nextMessageId sentIds).mp
    ((onReceive_safe_iff_relays hbuilt msg sentIds).mp hfailure)
  obtain ⟨delay, hdelay⟩ := hopDelay_ok msg.senderId hbuilt.long_self
  have hsix := hbuilt.rings_le
  -- the node asks itself for the level after the last one
  have hasks : pm.MayAskItself 0 → ∀ level, level = 2 ^ 64 - 1 → ∀ broadcastId messageId,
      pm.controlFlow msg pm.nextMessageId sentIds =
        .ok [.up (Message.mkHgfrr broadcastId messageId 1 level pm.node.id []) level] →
      ∃ call ∈ (pm.onReceive rand msg data sentIds).emitted,
        call.msg.receiverId = call.msg.senderId ∧ ¬pm.Accepts call.msg ∧
          call.msg.fromLevel < 2 ^ 64 := by
    rintro hitself _ rfl broadcastId messageId hflow
    obtain ⟨nodes, hnodes, hmem⟩ := id hitself
    obtain ⟨node, hnode, hid⟩ := hdraw nodes hnodes hmem
    have hne : nodes.length ≠ 0 := by
      obtain ⟨other, hother, -⟩ := hmem
      exact List.length_pos_of_mem hother |>.ne'
    refine ⟨⟨node, (Message.mkHgfrr broadcastId messageId 1 (2 ^ 64 - 1) pm.node.id
      []).setReceiverId node.id, data, []⟩, ?_, hid, ?_, show 2 ^ 64 - 1 < 2 ^ 64 by decide⟩
    · rw [PeerManager.onReceive, hdelay, ofExcept_ok, hflow, ofExcept_ok, List.map_singleton,
        sequence_singleton, PeerManager.runRelay, PeerManager.broadcastUp,
        show ulong (((2 ^ 64 - 1 : ℕ) : ℤ) + 1) = 0 by decide, hnodes, ofExcept_ok, if_neg hne,
        hnode]
      exact List.mem_singleton_self _
    · rintro (hlow | ⟨-, -, hother⟩)
      · exact absurd hlow (show ¬2 ^ 64 - 1 < 6 by decide)
      · exact hother hitself
  have hnone : pm.nodeTable.tables[2 ^ 64 - 1]? = none :=
    List.getElem?_eq_none_iff.mpr (hsix.trans (by decide))
  unfold PeerManager.Accepts at hnot
  unfold PeerManager.Admits at hadmits
  split at hnot
  next htype =>
    rw [htype] at hadmits
    have hlast : ulong ((msg.fromLevel : ℤ) + 1) = 2 ^ 64 - 1 ∧ pm.MayAskItself 0 := by
      by_contra hother
      refine hnot ⟨hadmits.1.imp_right fun h => ⟨h.1, h.2, fun hitself => hother ⟨h.1, hitself⟩⟩,
        hadmits.2⟩
    refine hasks hlast.2 _ hlast.1 msg.broadcastId pm.nextMessageId ?_
    simp only [PeerManager.controlFlow, htype, hlast.1, hbuilt.hasRings.isContactNode_eq, hnone,
      Option.isSome_none, Bool.not_false, if_true]
  next htype =>
    rw [htype] at hadmits
    have hlast : msg.fromLevel = 2 ^ 64 - 1 ∧ pm.MayAskItself 0 := by
      by_contra hother
      exact hnot (hadmits.imp_right fun h =>
        ⟨h.1, h.2, fun hitself => hother ⟨h.1, hitself⟩⟩)
    refine hasks hlast.2 _ hlast.1 msg.broadcastId pm.nextMessageId ?_
    simp only [PeerManager.controlFlow, htype, hlast.1, hbuilt.hasRings.isContactNode_eq, hnone,
      Option.isSome_none, Bool.not_false, if_true]
  next htype => exact absurd (by simpa [htype] using hadmits) hnot
  next htype => exact absurd (by simpa [htype] using hadmits) hnot
  next htype =>
    -- the pass over the uppermost ring comes round, under a level without a segment
    rw [htype] at hadmits
    change msg.fromLevel ≤ 6 at hadmits
    obtain ⟨hlevel, i, receiver, hsteps, hid⟩ : msg.fromLevel = 6 ∧ pm.MeetsItself 5 := by
      by_contra hother
      refine hnot ?_
      by_cases hlow : msg.fromLevel < 6
      · exact Or.inl hlow
      · exact Or.inr ⟨by omega, fun hitself => hother ⟨by omega, hitself⟩⟩
    have hflow : pm.controlFlow msg pm.nextMessageId sentIds = .ok [.withinRing
        (Message.mkHgfrr msg.broadcastId pm.nextMessageId 3 6 pm.node.id []) 5 sentIds] := by
      simp [PeerManager.controlFlow, htype, hlevel]
    have hpass : pm.onReceive rand msg data sentIds = pm.broadcastWithinRing
        (Message.mkHgfrr msg.broadcastId pm.nextMessageId 3 6 pm.node.id []) 5 2 data sentIds := by
      rw [PeerManager.onReceive, hdelay, ofExcept_ok, hflow, ofExcept_ok, List.map_singleton,
        sequence_singleton]
      rfl
    rw [hpass] at hfailure ⊢
    obtain ⟨call, hcall, hof⟩ := exists_call_of_stepsTo hfailure hsteps
    refine ⟨call, hcall, by rw [hof.receiverId, hid, hof.senderId]; rfl, ?_, ?_⟩
    · rw [(pm.accepts_of_ring hof.type).1, hof.fromLevel]
      exact fun h => absurd h.1 (show ¬6 < 6 by decide)
    · rw [hof.fromLevel]
      exact show 6 < 2 ^ 64 by decide
  next => exact absurd trivial hnot

end Steps

section Runs

variable {pm pm' : PeerManager}

/-- What a node handles safely depends on its table and its id. -/
theorem PeerManager.accepts_congr (hnode : pm'.node = pm.node)
    (htable : pm'.nodeTable = pm.nodeTable) (msg : Message) :
    (pm'.Accepts msg ↔ pm.Accepts msg) ∧ pm'.rank msg = pm.rank msg := by
  obtain ⟨node, nodeTable, msgTable, noted⟩ := pm
  obtain ⟨node', nodeTable', msgTable', noted'⟩ := pm'
  obtain rfl : node' = node := hnode
  obtain rfl : nodeTable' = nodeTable := htable
  exact ⟨Iff.rfl, rfl⟩

/-- Handling messages changes neither the node nor its table. -/
theorem keeps_handler (pm : PeerManager) (rands : ℕ → ℕ) (clock : ℕ → ℤ) :
    (PeerManager.handler rands clock).Keeps fun state =>
      state.1.node = pm.node ∧ state.1.nodeTable = pm.nodeTable := by
  refine ⟨fun state item h => h, fun state call h => ?_⟩
  dsimp only [PeerManager.handler, PeerManager.send]
  split_ifs <;> exact h

/-- A message is handed back exactly if the node is its receiver. -/
theorem handler_send_own (rands : ℕ → ℕ) (clock : ℕ → ℤ) (state : PeerManager × ℕ)
    (call : SendCall) :
    ((PeerManager.handler rands clock).send state call).2 =
      if call.msg.receiverId = call.msg.senderId then some (call.msg, call.data, call.sentIds)
      else none := by
  dsimp only [PeerManager.handler, PeerManager.send]
  split_ifs <;> rfl

/-- Wherever the node can be drawn among the contact nodes of the lowest level, some number
draws it. -/
theorem exists_draw (hbuilt : NodeTable.Built pm.node.id pm.nodeTable.tables) :
    ∃ rand, ∀ nodes, pm.nodeTable.getContactNodes 0 = .ok nodes →
      (∃ node ∈ nodes, node.id = pm.node.id) →
        ∃ node, nodes[rand % nodes.length]? = some node ∧ node.id = pm.node.id := by
  obtain ⟨nodes, hnodes⟩ := NodeTable.exists_contactNodes hbuilt.rings_pos 0
  by_cases hitself : ∃ node ∈ nodes, node.id = pm.node.id
  · obtain ⟨node, hmem, hid⟩ := hitself
    obtain ⟨rand, hlt, hget⟩ := List.mem_iff_getElem.mp hmem
    refine ⟨rand, fun nodes' hnodes' _ => ⟨node, ?_, hid⟩⟩
    obtain rfl := Except.ok.inj (hnodes.symm.trans hnodes')
    rw [Nat.mod_eq_of_lt hlt, List.getElem?_eq_getElem hlt, hget]
  · refine ⟨0, fun nodes' hnodes' hmem => absurd hmem ?_⟩
    obtain rfl := Except.ok.inj (hnodes.symm.trans hnodes')
    exact hitself

/-- A node handles a message safely, with all that it sends to itself, exactly if it
accepts the message. -/
theorem handlesSafely_iff (hbuilt : NodeTable.Built pm.node.id pm.nodeTable.tables) {msg : Message}
    (hlevel : msg.fromLevel < 2 ^ 64) (data : Str) (sentIds : List Str) :
    pm.HandlesSafely msg data sentIds ↔ pm.Accepts msg := by
  constructor
  · intro h
    by_contra hnot
    obtain ⟨rand, hdraw⟩ := exists_draw hbuilt
    refine (keeps_handler pm (fun _ => rand) fun _ => 0).not_ends
      (fun item => ¬pm.Accepts item.1 ∧ item.1.fromLevel < 2 ^ 64) ?_ ⟨rfl, rfl⟩
      ⟨hnot, hlevel⟩ (h (fun _ => rand) fun _ => 0)
    rintro ⟨pm', n⟩ ⟨msg', data', sentIds'⟩ ⟨hnode, htable⟩ ⟨hnot', hlevel'⟩
    have hcongr := PeerManager.accepts_congr hnode htable
    replace hnot' := mt (hcongr msg').1.mp hnot'
    dsimp only at hnode htable hlevel'
    rw [← hnode, ← htable] at hbuilt hdraw
    refine (onReceive_not_accepts hbuilt hlevel' rand data' sentIds' hnot' hdraw).imp id ?_
    rintro ⟨call, hcall, hown, hnotCall, hlevelCall⟩
    refine ⟨call, hcall, (call.msg, call.data, call.sentIds), ⟨?_, hlevelCall⟩, fun state _ => ?_⟩
    · exact mt (hcongr call.msg).1.mpr hnotCall
    · rw [handler_send_own, if_pos hown]
  · intro haccepts rands clock
    refine (keeps_handler pm rands clock).ends
      (fun item => pm.Accepts item.1 ∧ item.1.fromLevel < 2 ^ 64)
      (InvImage.wf (fun item => pm.rank item.1) wellFounded_lt) ?_ ⟨rfl, rfl⟩ ⟨haccepts, hlevel⟩
    rintro ⟨pm', n⟩ ⟨msg', data', sentIds'⟩ ⟨hnode, htable⟩ ⟨haccepts', hlevel'⟩
    have hcongr := PeerManager.accepts_congr hnode htable
    replace haccepts' := (hcongr msg').1.mpr haccepts'
    dsimp only at hnode htable hlevel'
    rw [← hnode, ← htable] at hbuilt
    obtain ⟨hfailure, hdescends⟩ :=
      onReceive_descends hbuilt hlevel' (rands n) data' sentIds' haccepts'
    refine ⟨hfailure, fun call hcall state own _ hsent => ?_⟩
    rw [handler_send_own] at hsent
    split at hsent
    next hown =>
      obtain rfl := Option.some.inj hsent
      have hdescent := hdescends call hcall hown
      refine ⟨⟨(hcongr call.msg).1.mp hdescent.accepts, hdescent.fromLevel_lt⟩, ?_⟩
      have hlt := hdescent.rank_lt
      rwa [(hcongr _).2, (hcongr _).2] at hlt
    next => cases hsent

end Runs

/-- A node whose tables were built handles a parsed message safely, with all messages that
it sends to itself for it, exactly when it accepts the message. -/
theorem onReceive_safe_iff {p : Topology} {startingPortNumber : ℕ} {order : MapOrder}
    {pm : PeerManager} {rings : List Ring}
    (hform : BaseApp.formStructure p startingPortNumber order pm.node.id = .ok rings)
    (htables : pm.nodeTable.tables = rings) {text data : Str} {msg : Message} {sentIds : List Str}
    (hparse : parseDatagram text = .ok (msg, data, sentIds)) :
    pm.HandlesSafely msg data sentIds ↔ pm.Accepts msg := by
  have hbuilt : NodeTable.Built pm.node.id pm.nodeTable.tables :=
    htables ▸ BaseApp.built_of_formStructure hform
  exact handlesSafely_iff hbuilt (fromLevel_lt_of_parseDatagram hparse) data sentIds

/-! ## A message far out of order -/

/-- One district of two nodes. -/
def twoNodes : Topology where
  numNodesInDist := 2
  numCnodesInDist := 1
  numNodesInCity := 0
  numCnodesInCity := 1
  numNodesInState := 0
  numCnodesInState := 1
  numNodesInCountry := 0
  numCnodesInCountry := 1
  numNodesInContinent := 0
  numContinents := 1
  numCnodesInContinent := 1

def twoNodesTables : List Ring :=
  (BaseApp.formStructure twoNodes 5000 insertionOrder (firstRegionId 0)).toOption.getD []

def twoNodesManager : PeerManager :=
  ⟨⟨firstRegionId 0, [], 5000⟩, ⟨firstRegionId 0, twoNodesTables⟩, ⟨[]⟩, []⟩

/-- A message of type 5 with the order `-3`. -/
def earlyMessage : Message := (Message.mkHgfrr ['C'] ['D'] 5 0 ['A'] ['B']).setNodeOrder (-3)

theorem formStructure_twoNodes :
    BaseApp.formStructure twoNodes 5000 insertionOrder twoNodesManager.node.id =
      .ok twoNodesTables := by decide +kernel

theorem parse_earlyMessage :
    parseDatagram "A,B,C,D,5,0,-3,|".toList = .ok (earlyMessage, [], []) := by decide +kernel

theorem onReceive_safe_iff_early :
    twoNodesManager.HandlesSafely earlyMessage [] [] ↔ twoNodesManager.Accepts earlyMessage :=
  onReceive_safe_iff formStructure_twoNodes rfl parse_earlyMessage

/-- The third step of the tree asks a list of two peers for the third one. -/
theorem onReceive_not_safe_early :
    BaseApp.formStructure twoNodes 5000 insertionOrder twoNodesManager.node.id =
        .ok twoNodesManager.nodeTable.tables ∧
      parseDatagram "A,B,C,D,5,0,-3,|".toList = .ok (earlyMessage, [], []) ∧
      (twoNodesManager.onReceive 0 earlyMessage [] []).failure = some .outOfRange ∧
      ¬twoNodesManager.HandlesSafely earlyMessage [] [] := by
  have hfailure : (twoNodesManager.onReceive 0 earlyMessage [] []).failure = some .outOfRange := by
    decide +kernel
  refine ⟨formStructure_twoNodes, parse_earlyMessage, hfailure, fun h => ?_⟩
  obtain ⟨fuel, state, hends⟩ := h (fun _ => 0) fun _ => 0
  cases fuel with
  | zero => cases hends
  | succ fuel =>
      have hnone := ((keeps_handler twoNodesManager (fun _ => 0) fun _ => 0).of_within_succ
        ⟨rfl, rfl⟩ hends).1
      exact absurd (hfailure.symm.trans hnone) (by simp)

end Hgfrr
