import Hgfrr.Model.Evaluation

/-!
# The pointers of an evaluation client

A configuration resets the peer manager of the one before, so that there is at most one
peer manager, and it belongs to the current configuration. That covers every handler
that asks for a peer manager first. The handler of log requests does not.
-/

namespace Hgfrr

namespace EvalClient

/-- A peer manager belongs to the configuration, and the own node exists with it. -/
structure Coupled (client : EvalClient) : Prop where
  hgfrr : ∀ evaluation, client.peerManager = some evaluation →
    evaluation.config.evalType = .hgfrr ∧
      client.evalConfig = some (evaluation.strNodeId, evaluation.config)
  kademlia : ∀ evaluation, client.peerManagerEth = some evaluation →
    evaluation.config.evalType = .kademlia ∧
      client.evalConfig = some (evaluation.strNodeId, evaluation.config)
  self : ∀ config, client.evalConfig = some config → client.self ≠ none

/-- Some peer manager exists. -/
def HasManager (client : EvalClient) : Prop :=
  client.peerManager ≠ none ∨ client.peerManagerEth ≠ none

/-- A used peer manager is the one of the configured protocol. -/
def Belongs (client : EvalClient) (use : ManagerUse) : Prop :=
  client.evalConfig = some (use.evaluation.strNodeId, use.evaluation.config) ∧
    use.evalType = use.evaluation.config.evalType ∧
    match use.evalType with
    | .hgfrr => client.peerManager = some use.evaluation
    | .kademlia => client.peerManagerEth = some use.evaluation

section Steps

variable {client client' : EvalClient} {uses : List ManagerUse}

/-- Only the configured protocol may have a peer manager. -/
theorem Coupled.peerManager_eq_none (h : client.Coupled)
    (hother : ∀ strNodeId config, client.evalConfig = some (strNodeId, config) →
      config.evalType = .kademlia) : client.peerManager = none := by
  refine Option.eq_none_iff_forall_ne_some.mpr fun evaluation heq => ?_
  obtain ⟨htype, hconfig⟩ := h.hgfrr evaluation heq
  exact nomatch htype.symm.trans (hother _ _ hconfig)

theorem Coupled.peerManagerEth_eq_none (h : client.Coupled)
    (hother : ∀ strNodeId config, client.evalConfig = some (strNodeId, config) →
      config.evalType = .hgfrr) : client.peerManagerEth = none := by
  refine Option.eq_none_iff_forall_ne_some.mpr fun evaluation heq => ?_
  obtain ⟨htype, hconfig⟩ := h.kademlia evaluation heq
  exact nomatch htype.symm.trans (hother _ _ hconfig)

/-- A configuration leaves no peer manager, whatever was configured before. -/
theorem Coupled.receiveConfig (h : client.Coupled) (nodeId : ℕ) (config : EvalConfig) :
    (client.receiveConfig nodeId config).peerManager = none ∧
      (client.receiveConfig nodeId config).peerManagerEth = none := by
  unfold EvalClient.receiveConfig
  cases hconfig : client.evalConfig with
  | none =>
      exact ⟨h.peerManager_eq_none fun _ _ heq => (nomatch hconfig.symm.trans heq),
        h.peerManagerEth_eq_none fun _ _ heq => (nomatch hconfig.symm.trans heq)⟩
  | some previous =>
      obtain ⟨strNodeId, previous⟩ := previous
      have hsame : ∀ strNodeId' config', client.evalConfig = some (strNodeId', config') →
          config'.evalType = previous.evalType := by
        intro strNodeId' config' heq
        obtain ⟨_, rfl⟩ := Prod.mk.inj (Option.some.inj (hconfig.symm.trans heq))
        rfl
      cases htype : previous.evalType with
      | kademlia =>
          refine ⟨?_, by simp [htype]⟩
          simpa [htype] using h.peerManager_eq_none fun id config heq =>
            (hsame id config heq).trans htype
      | hgfrr =>
          refine ⟨by simp [htype], ?_⟩
          simpa [htype] using
            h.peerManagerEth_eq_none fun id config heq => (hsame id config heq).trans htype

theorem Coupled.handleConfig (h : client.Coupled) {fields : ConfigFields}
    (hstep : client.handleConfig fields = .ok (client', uses)) :
    client'.Coupled ∧ uses = [] := by
  unfold EvalClient.handleConfig at hstep
  split at hstep
  next => exact nomatch hstep
  next topology _ =>
    obtain ⟨rfl, rfl⟩ := Prod.mk.inj (Except.ok.inj hstep)
    obtain ⟨hmanager, heth⟩ := h.receiveConfig fields.nodeId
      ⟨fields.runId, fields.evalType, topology⟩
    refine ⟨⟨fun _ heq => (nomatch hmanager.symm.trans heq),
      fun _ heq => (nomatch heth.symm.trans heq), fun _ _ => ?_⟩, rfl⟩
    simp [EvalClient.receiveConfig]

/-- What a page of the table leaves, and what it builds. -/
theorem Coupled.receiveTable (h : client.Coupled) {page : TablePage} {built : Option Evaluation}
    (hstep : client.receiveTable page = .ok (client', built)) :
    client'.Coupled ∧ ∀ evaluation, built = some evaluation → evaluation.self ≠ none ∧
      client'.Belongs ⟨evaluation.config.evalType, evaluation, .start⟩ := by
  unfold EvalClient.receiveTable at hstep
  split at hstep
  next =>
    obtain ⟨rfl, rfl⟩ := Prod.mk.inj (Except.ok.inj hstep)
    exact ⟨h, fun _ heq => (nomatch heq)⟩
  next strNodeId config hconfig =>
    obtain ⟨nodeList, _, hstep⟩ := Except.bind_eq_ok.mp hstep
    have hself := h.self _ hconfig
    dsimp only at hstep
    split at hstep
    next =>
      split at hstep
      next htype =>
        obtain ⟨rfl, rfl⟩ := Prod.mk.inj (Except.ok.inj hstep)
        have hmanager := h.peerManager_eq_none fun _ _ heq => by
          obtain ⟨_, rfl⟩ := Prod.mk.inj (Option.some.inj (hconfig.symm.trans heq))
          exact htype
        refine ⟨⟨fun _ heq => (nomatch hmanager.symm.trans heq), ?_, fun _ _ => hself⟩, ?_⟩
        · intro evaluation heq
          obtain rfl := Option.some.inj heq
          exact ⟨htype, hconfig⟩
        · intro evaluation heq
          obtain rfl := Option.some.inj heq
          exact ⟨hself, hconfig, rfl, by simp [htype]⟩
      next htype =>
        obtain ⟨rfl, rfl⟩ := Prod.mk.inj (Except.ok.inj hstep)
        have hmanager := h.peerManagerEth_eq_none fun _ _ heq => by
          obtain ⟨_, rfl⟩ := Prod.mk.inj (Option.some.inj (hconfig.symm.trans heq))
          exact htype
        refine ⟨⟨?_, fun _ heq => (nomatch hmanager.symm.trans heq), fun _ _ => hself⟩, ?_⟩
        · intro evaluation heq
          obtain rfl := Option.some.inj heq
          exact ⟨htype, hconfig⟩
        · intro evaluation heq
          obtain rfl := Option.some.inj heq
          exact ⟨hself, hconfig, rfl, by simp [htype]⟩
    next =>
      obtain ⟨rfl, rfl⟩ := Prod.mk.inj (Except.ok.inj hstep)
      exact ⟨⟨h.hgfrr, h.kademlia, fun _ _ => hself⟩, fun _ heq => (nomatch heq)⟩

theorem Coupled.handleTable (h : client.Coupled) {page : TablePage}
    (hstep : client.handleTable page = .ok (client', uses)) :
    client'.Coupled ∧ ∀ use ∈ uses, client'.Belongs use := by
  unfold EvalClient.handleTable at hstep
  split at hstep
  next => exact nomatch hstep
  next hreceive =>
    obtain ⟨rfl, rfl⟩ := Prod.mk.inj (Except.ok.inj hstep)
    exact ⟨(h.receiveTable hreceive).1, by simp⟩
  next evaluation hreceive =>
    obtain ⟨_, _, hstep⟩ := Except.bind_eq_ok.mp hstep
    obtain ⟨rfl, rfl⟩ := Prod.mk.inj (Except.ok.inj hstep)
    obtain ⟨hcoupled, hbuilt⟩ := h.receiveTable hreceive
    exact ⟨hcoupled, by simpa using (hbuilt evaluation rfl).2⟩

/-- A peer manager that exists is found where the configuration says. -/
theorem Coupled.exists_manager (h : client.Coupled) (hmanager : client.HasManager) :
    ∃ strNodeId config evaluation, client.evalConfig = some (strNodeId, config) ∧
      (config.evalType = .kademlia → client.peerManagerEth = some evaluation) ∧
      (config.evalType = .hgfrr → client.peerManager = some evaluation) ∧
      ∀ call, client.Belongs ⟨config.evalType, evaluation, call⟩ := by
  rcases hmanager with hmanager | hmanager
  · obtain ⟨evaluation, heq⟩ := Option.ne_none_iff_exists'.mp hmanager
    obtain ⟨htype, hconfig⟩ := h.hgfrr evaluation heq
    exact ⟨_, _, evaluation, hconfig, fun hother => (nomatch htype.symm.trans hother), fun _ => heq,
      fun _ => ⟨hconfig, rfl, by simpa [htype] using heq⟩⟩
  · obtain ⟨evaluation, heq⟩ := Option.ne_none_iff_exists'.mp hmanager
    obtain ⟨htype, hconfig⟩ := h.kademlia evaluation heq
    exact ⟨_, _, evaluation, hconfig, fun _ => heq, fun hother => (nomatch htype.symm.trans hother),
      fun _ => ⟨hconfig, rfl, by simpa [htype] using heq⟩⟩

/-- The guard of a broadcast is enough. -/
theorem Coupled.handleBroadcast (h : client.Coupled) (workloadSize : ℕ) :
    ∃ uses, client.handleBroadcast workloadSize = .ok (client, uses) ∧
      ∀ use ∈ uses, client.Belongs use := by
  unfold EvalClient.handleBroadcast
  by_cases hnone : client.peerManager = none ∧ client.peerManagerEth = none
  · exact ⟨[], if_pos hnone, by simp⟩
  · rw [if_neg hnone]
    obtain ⟨strNodeId, config, evaluation, hconfig, heth, hpeer, hbelongs⟩ :=
      h.exists_manager (not_and_or.mp hnone)
    rw [hconfig]
    cases htype : config.evalType with
    | kademlia =>
        rw [heth htype]
        refine ⟨_, by simp only [deref, bind, Except.bind, htype]; rfl, ?_⟩
        simpa [htype] using hbelongs (.broadcast (generateRandomWorkload workloadSize))
    | hgfrr =>
        rw [hpeer htype]
        refine ⟨_, by simp only [deref, bind, Except.bind, htype]; rfl, ?_⟩
        simpa [htype] using hbelongs (.broadcast (generateRandomWorkload workloadSize))

/-- A log request is answered if there is a peer manager. -/
theorem Coupled.sendPushLog (h : client.Coupled) (hmanager : client.HasManager) :
    ∃ uses, client.sendPushLog = .ok (client, uses) ∧ ∀ use ∈ uses, client.Belongs use := by
  unfold EvalClient.sendPushLog
  obtain ⟨strNodeId, config, evaluation, hconfig, heth, hpeer, hbelongs⟩ :=
      h.exists_manager hmanager
  obtain ⟨self, hself⟩ := Option.ne_none_iff_exists'.mp (h.self _ hconfig)
  rw [hconfig, hself]
  cases htype : config.evalType with
  | kademlia =>
      rw [heth htype]
      refine ⟨_, by simp only [deref, bind, Except.bind, htype]; rfl, ?_⟩
      simpa [htype] using hbelongs .records
  | hgfrr =>
      rw [hpeer htype]
      refine ⟨_, by simp only [deref, bind, Except.bind, htype]; rfl, ?_⟩
      simpa [htype] using hbelongs .records

/-- Without one it ends at a null pointer. -/
theorem sendPushLog_of_not_hasManager (hmanager : ¬ client.HasManager) :
    client.sendPushLog = .error .nullPointer := by
  obtain ⟨hpeer, heth⟩ := not_or.mp hmanager
  rw [not_not] at hpeer heth
  unfold EvalClient.sendPushLog
  rw [hpeer, heth]
  cases client.evalConfig with
  | none => rfl
  | some config =>
      obtain ⟨strNodeId, config⟩ := config
      simp only [deref, bind, Except.bind]
      cases config.evalType <;> rfl

/-- Pages of the table never meet a null pointer. -/
theorem Coupled.handleTable_ne_null (h : client.Coupled) (page : TablePage) :
    client.handleTable page ≠ .error .nullPointer := by
  intro hnull
  unfold EvalClient.handleTable at hnull
  split at hnull
  next => exact nomatch hnull
  next => exact nomatch hnull
  next evaluation hreceive =>
    obtain ⟨self, hself⟩ :=
      Option.ne_none_iff_exists'.mp ((h.receiveTable hreceive).2 evaluation rfl).1
    rw [hself] at hnull
    exact nomatch hnull

/-- One message: the pointers stay coupled, and a peer manager that is used belongs to
the configuration. Only a log request without a peer manager ends at a null pointer. -/
theorem Coupled.handle (h : client.Coupled) (msg : ClientMessage) :
    (∀ client' uses, client.handle msg = .ok (client', uses) →
      client'.Coupled ∧ ∀ use ∈ uses, client'.Belongs use) ∧
    (client.handle msg = .error .nullPointer ↔ msg = .pullLog ∧ ¬ client.HasManager) := by
  cases msg with
  | config fields =>
      refine ⟨fun client' uses hstep => ?_, ⟨fun hnull => ?_, fun hpull => nomatch hpull.1⟩⟩
      · obtain ⟨hcoupled, rfl⟩ := h.handleConfig hstep
        exact ⟨hcoupled, by simp⟩
      · simp only [EvalClient.handle, EvalClient.handleConfig] at hnull
        split at hnull <;> exact nomatch hnull
  | table page =>
      exact ⟨fun client' uses hstep => h.handleTable hstep,
        ⟨fun hnull => absurd hnull (h.handleTable_ne_null page), fun hpull => nomatch hpull.1⟩⟩
  | broadcast workloadSize =>
      obtain ⟨uses, hstep, hbelongs⟩ := h.handleBroadcast workloadSize
      refine ⟨fun client' uses' hstep' => ?_,
        ⟨fun hnull => (nomatch hstep.symm.trans hnull), fun hpull => nomatch hpull.1⟩⟩
      obtain ⟨rfl, rfl⟩ := Prod.mk.inj (Except.ok.inj (hstep.symm.trans hstep'))
      exact ⟨h, hbelongs⟩
  | pullLog =>
      by_cases hmanager : client.HasManager
      · obtain ⟨uses, hstep, hbelongs⟩ := h.sendPushLog hmanager
        refine ⟨fun client' uses' hstep' => ?_,
          ⟨fun hnull => (nomatch hstep.symm.trans hnull), fun hpull => absurd hmanager hpull.2⟩⟩
        obtain ⟨rfl, rfl⟩ := Prod.mk.inj (Except.ok.inj (hstep.symm.trans hstep'))
        exact ⟨h, hbelongs⟩
      · have hnull := sendPushLog_of_not_hasManager hmanager
        exact ⟨fun client' uses hstep => (nomatch hnull.symm.trans hstep),
          ⟨fun _ => ⟨rfl, hmanager⟩, fun _ => hnull⟩⟩
  | unknown =>
      refine ⟨fun client' uses hstep => ?_,
        ⟨fun hnull => (nomatch hnull), fun hpull => nomatch hpull.1⟩⟩
      obtain ⟨rfl, rfl⟩ := Prod.mk.inj (Except.ok.inj hstep)
      exact ⟨h, by simp⟩

end Steps

/-! ## When there is a peer manager -/

section Steps

variable {client client' : EvalClient} {uses : List ManagerUse}

end Steps

/-! ## Runs -/

theorem run_append (client : EvalClient) (before : List ClientMessage) (msg : ClientMessage) :
    client.run (before ++ [msg]) = do
      let client ← client.run before
      let (client, _) ← client.handle msg
      return client := by
  induction before generalizing client with
  | nil =>
      cases hstep : client.handle msg with
      | error fault => simp [run, hstep, bind, Except.bind]
      | ok result => simp [run, hstep, bind, Except.bind, pure, Except.pure]
  | cons first before ih =>
      cases hstep : client.handle first with
      | error fault => simp [run, hstep, bind, Except.bind]
      | ok result =>
          simp only [List.cons_append, run, hstep, bind, Except.bind] at ih ⊢
          exact ih result.1

/-- Handling a message meets no null pointer, and a peer manager that is used belongs to
the configuration. -/
def HandlesSafely (client : EvalClient) (msg : ClientMessage) : Prop :=
  client.handle msg ≠ .error .nullPointer ∧
    ∀ client' uses, client.handle msg = .ok (client', uses) → ∀ use ∈ uses, client'.Belongs use

end EvalClient

end Hgfrr
