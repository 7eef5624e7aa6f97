import Hgfrr.Foundation.Issuing
import Hgfrr.Model.PeerManagerEth
import Hgfrr.Protocol.Election

/-!
# Broadcast ids

The id of a broadcast is the id of the node and the number of broadcasts noted so
far. Every call that makes such an id notes one entry before the next id is made.
The ids are read from the messages that are sent under them.
-/

namespace Hgfrr

open Emission

/-- What a node of the ring protocol does. -/
inductive PeerEvent
  | broadcast (rand : ℕ) (data : Str)
  | contactNodeElection (draws : List ℕ) (level : ℕ)
  | receive (now : ℤ) (rand : ℕ) (data : Str)
  | send (now : ℤ) (call : SendCall)

/-- What a node of the gossip protocol does. -/
inductive GossipEvent
  | broadcast (draws : List ℕ) (data : Str) (ttl : ℤ)
  | receive (now : ℤ) (draws : List ℕ) (ip : Str) (port : ℕ) (data : Str)
  | send (now : ℤ) (call : SendCallETH)

/-- The broadcast ids in messages. -/
def broadcastIds (msgs : List Message) : List Str := (msgs.map Message.broadcastId).dedup

/-- The broadcast id with a number. -/
def broadcastIdText (id : Str) (n : ℕ) : Str := id ++ setw 16 n

namespace PeerManager

variable (pm : PeerManager)

def step : PeerEvent → PeerManager
  | .broadcast rand data => (pm.broadcast rand data).1
  | .contactNodeElection draws level => (pm.contactNodeElection draws level).1
  | .receive now rand data => (pm.receive now rand data).1
  | .send now call => (pm.send now call).1

/-- The messages that a node sends on its own account, one list for each broadcast that
it starts. The result of an election is broadcast up to three times. On receipt of a
message they are those under another broadcast id than that of the message. -/
def generations : PeerEvent → List (List Message)
  | .broadcast rand data => [(pm.broadcast rand data).2.emitted.map SendCall.msg]
  | .contactNodeElection draws level =>
      match pm.nodeTable.getPeerListSize level >>= fun numPeers =>
        drawContactNodes numPeers draws numContactNodes [] with
      | .error _ => []
      | .ok _ => (stagesOn (electionSteps level) pm).map (List.map SendCall.msg)
  | .receive now rand data =>
      match parseDatagram data with
      | .error _ => []
      | .ok (msg, _, _) =>
          [((pm.receive now rand data).2.emitted.map SendCall.msg).filter
            fun sent => sent.broadcastId ≠ msg.broadcastId]
  | .send _ _ => []

/-- The broadcast ids made in an event. -/
def generatedIds (event : PeerEvent) : List Str := (pm.generations event).flatMap broadcastIds

/-- No message of an election is missing. -/
theorem flatten_generations (draws : List ℕ) (level : ℕ) :
    (pm.generations (.contactNodeElection draws level)).flatten =
      (pm.contactNodeElection draws level).2.emitted.map SendCall.msg := by
  unfold generations contactNodeElection
  dsimp only
  cases (pm.nodeTable.getPeerListSize level >>= fun numPeers =>
    drawContactNodes numPeers draws numContactNodes []) with
  | error fault => rfl
  | ok elected =>
      dsimp only
      rw [← List.map_flatten, flatten_stagesOn]

/-- What a routine sends under a new broadcast id, for which it notes an entry, unless it
does nothing at all. -/
def Starts (result : PeerManager × Sends) : Prop :=
  result.1.node = pm.node ∧
    (result.1.broadcastedMsgs = pm.broadcastedMsgs ∧ result.2.emitted = [] ∨
      result.1.broadcastedMsgs.length = pm.broadcastedMsgs.length + 1 ∧
        ∀ call ∈ result.2.emitted,
          call.msg.broadcastId = broadcastIdText pm.node.id pm.broadcastedMsgs.length)

variable {pm} {result : PeerManager × Sends}

theorem Starts.oneId (h : pm.Starts result) : ∃ id, ∀ msg ∈ result.2.emitted.map SendCall.msg,
    msg.broadcastId = id := by
  obtain ⟨_, ⟨_, hnone⟩ | ⟨_, hids⟩⟩ := h
  · exact ⟨[], by simp [hnone]⟩
  · exact ⟨_, List.forall_mem_map.mpr hids⟩

theorem Starts.issuedBetween (h : pm.Starts result) :
    IssuedBetween (broadcastIdText pm.node.id) pm.broadcastedMsgs.length
      result.1.broadcastedMsgs.length (broadcastIds (result.2.emitted.map SendCall.msg)) := by
  obtain ⟨_, ⟨hsame, hnone⟩ | ⟨hnoted, hids⟩⟩ := h
  · rw [hsame, hnone]
    exact .nil
  · rw [hnoted]
    exact .dedup (by simpa using hids)

variable (pm)

theorem broadcast_starts (rand : ℕ) (data : Str) : pm.Starts (pm.broadcast rand data) := by
  refine ⟨rfl, Or.inr ⟨by simp [broadcast], fun call hcall => ?_⟩⟩
  obtain ⟨contactNodes, _, hcall⟩ := mem_emitted_ofExcept hcall
  obtain ⟨randomId, _, hcall⟩ := mem_emitted_ofExcept hcall
  split at hcall
  next => simp at hcall
  next receiver _ =>
    obtain rfl : call = _ := by simpa using hcall
    rfl

/-- An announcement is made under the id of its message. -/
theorem announceElection_starts {level : ℕ} {act : PeerManager → Message → Sends}
    (hact : ∀ (pm' : PeerManager) (msg : Message), msg.senderId = pm'.node.id →
      ∀ call ∈ (act pm' msg).emitted, call.msg.broadcastId = msg.broadcastId) :
    pm.Starts (pm.announceElection level act) :=
  ⟨rfl, Or.inr ⟨by simp [announceElection], fun call hcall => hact _ _ rfl call hcall⟩⟩

theorem electionSteps_start {level : ℕ} {next : PeerManager → PeerManager × Sends}
    (h : next ∈ electionSteps level) : pm.Starts (next pm) := by
  simp only [electionSteps, List.mem_cons, List.not_mem_nil, or_false] at h
  rcases h with rfl | rfl | rfl
  · exact pm.announceElection_starts fun pm' msg hsender call hcall =>
      (passedOn_broadcastWithinRing hsender hcall).broadcastId
  · dsimp only
    split
    next => exact ⟨rfl, Or.inl ⟨rfl, rfl⟩⟩
    next =>
      split
      next =>
        refine pm.announceElection_starts fun pm' msg _ call hcall => ?_
        obtain ⟨receivers, _, hcall⟩ := mem_emitted_ofExcept hcall
        obtain ⟨receiver, _, rfl⟩ := List.mem_map.mp hcall
        rfl
      next => exact ⟨rfl, Or.inl ⟨rfl, rfl⟩⟩
  · refine pm.announceElection_starts fun pm' msg hsender call hcall => ?_
    split at hcall
    next => exact (passedOn_broadcastWithinRing hsender hcall).broadcastId
    next => simp at hcall

/-- Routines that start a broadcast each, one after another up to one that fails. -/
theorem sequenceOn_issuedBetween {steps : List (PeerManager → PeerManager × Sends)}
    (hsteps : ∀ next ∈ steps, ∀ pm : PeerManager, pm.Starts (next pm)) :
    (sequenceOn steps pm).1.node = pm.node ∧
      (∀ msgs ∈ (stagesOn steps pm).map (List.map SendCall.msg),
        ∃ id, ∀ msg ∈ msgs, msg.broadcastId = id) ∧
      IssuedBetween (broadcastIdText pm.node.id) pm.broadcastedMsgs.length
        (sequenceOn steps pm).1.broadcastedMsgs.length
        (((stagesOn steps pm).map (List.map SendCall.msg)).flatMap broadcastIds) := by
  induction steps generalizing pm with
  | nil => exact ⟨rfl, by simp [stagesOn], .nil⟩
  | cons next steps ih =>
      obtain ⟨hfirst, hrest⟩ := List.forall_mem_cons.mp hsteps
      have hstarts := hfirst pm
      obtain ⟨hnode, hone, hissued⟩ := ih (next pm).1 hrest
      rw [hstarts.1] at hnode hissued
      unfold sequenceOn stagesOn andThenOn
      cases hfailure : (next pm).2.failure with
      | none =>
          simp only [Option.isSome_none, Bool.false_eq_true, if_false, List.map_cons,
            List.flatMap_cons, List.forall_mem_cons]
          exact ⟨hnode, ⟨hstarts.oneId, hone⟩, hstarts.issuedBetween.append hissued⟩
      | some fault =>
          simp only [Option.isSome_some, if_true, List.map_cons, List.map_nil,
            List.flatMap_singleton, List.forall_mem_singleton]
          exact ⟨hstarts.1, hstarts.oneId, hstarts.issuedBetween⟩

/-- Only broadcasts and elections make broadcast ids, one for each list of messages. A
received message is passed on under its own. -/
theorem step_issuedBetween (event : PeerEvent) :
    (pm.step event).node = pm.node ∧
      (∀ msgs ∈ pm.generations event, ∃ id, ∀ msg ∈ msgs, msg.broadcastId = id) ∧
      IssuedBetween (broadcastIdText pm.node.id) pm.broadcastedMsgs.length
        (pm.step event).broadcastedMsgs.length (pm.generatedIds event) := by
  cases event with
  | broadcast rand data =>
      have hstarts := pm.broadcast_starts rand data
      refine ⟨hstarts.1, List.forall_mem_singleton.mpr hstarts.oneId, ?_⟩
      simp only [generatedIds, generations, List.flatMap_singleton]
      exact hstarts.issuedBetween
  | contactNodeElection draws level =>
      unfold generatedIds generations step contactNodeElection
      dsimp only
      cases (pm.nodeTable.getPeerListSize level >>= fun numPeers =>
        drawContactNodes numPeers draws numContactNodes []) with
      | error fault => exact ⟨rfl, List.forall_mem_nil _, .nil⟩
      | ok elected =>
          exact pm.sequenceOn_issuedBetween fun next hnext pm => pm.electionSteps_start hnext
  | receive now rand data =>
      simp only [generatedIds, generations, step, receive]
      cases parseDatagram data with
      | error fault => exact ⟨rfl, List.forall_mem_nil _, .nil⟩
      | ok parsed =>
          -- whatever a handler sends has the broadcast id of the message
          obtain ⟨msg, dataInMsg, sentIds⟩ := parsed
          dsimp only
          rw [List.filter_eq_nil_iff.mpr (List.forall_mem_map.mpr fun call hcall => by
            simpa using (passedOn_onReceive hcall).broadcastId)]
          exact ⟨rfl, List.forall_mem_singleton.mpr ⟨[], List.forall_mem_nil _⟩, .nil⟩
  | send now call =>
      simp only [step, send]
      split
      next => exact ⟨rfl, List.forall_mem_nil _, .nil⟩
      next => exact ⟨rfl, List.forall_mem_nil _, .nil⟩

end PeerManager

namespace PeerManagerETH

variable (hash : Str → ℕ) (pm : PeerManagerETH)

def step : GossipEvent → PeerManagerETH
  | .broadcast draws data ttl => (pm.broadcast hash draws data ttl []).1
  | .receive now draws ip port data => (pm.receive hash now draws ip port data).1
  | .send now call => (pm.send now call).1

/-- The messages that a node sends on its own account: those of a new broadcast, and what
it sends on receipt of a message under another broadcast id than that of the message. -/
def generations : GossipEvent → List (List Message)
  | .broadcast draws data ttl =>
      [(pm.broadcast hash draws data ttl []).2.emitted.map SendCallETH.msg]
  | .receive now draws ip port data =>
      match readDatagramETH pm.mode data with
      | .ok (some (msg, _)) =>
          [((pm.receive hash now draws ip port data).2.emitted.map SendCallETH.msg).filter
            fun sent => sent.broadcastId ≠ msg.broadcastId]
      | _ => []
  | .send _ _ => []

/-- The broadcast ids made in an event. -/
def generatedIds (event : GossipEvent) : List Str :=
  (pm.generations hash event).flatMap broadcastIds

/-- A routine sends what it does under a broadcast id of its caller, or under a new one,
for which it notes an entry. -/
def Continues (broadcastId : Str) (result : PeerManagerETH × SendsETH) : Prop :=
  (result.1.broadcastedMsgs = pm.broadcastedMsgs ∧
      ∀ call ∈ result.2.emitted, call.msg.broadcastId = broadcastId) ∨
    result.1.broadcastedMsgs.length = pm.broadcastedMsgs.length + 1 ∧
      ∀ call ∈ result.2.emitted,
        call.msg.broadcastId = broadcastIdText pm.node.id pm.broadcastedMsgs.length

theorem broadcastTo_broadcastId (data : Str) (ttl : ℤ) (broadcastId : Str) (receiver : Node) :
    (pm.broadcastTo hash data ttl broadcastId receiver).msg.broadcastId = broadcastId := by
  unfold broadcastTo
  cases pm.mode <;> rfl

/-- An empty broadcast id is replaced by a new one. -/
theorem broadcast_continues (draws : List ℕ) (data : Str) (ttl : ℤ) (broadcastId : Str) :
    pm.Continues broadcastId (pm.broadcast hash draws data ttl broadcastId) ∧
      (broadcastId = [] →
        (pm.broadcast hash draws data ttl broadcastId).1.broadcastedMsgs.length =
          pm.broadcastedMsgs.length + 1) := by
  unfold broadcast Continues
  dsimp only
  split
  next =>
    refine ⟨Or.inr ⟨by simp, fun call hcall => ?_⟩, fun _ => by simp⟩
    obtain ⟨receivers, _, hcall⟩ := mem_emitted_ofExcept hcall
    obtain ⟨receiver, _, rfl⟩ := List.mem_map.mp hcall
    exact broadcastTo_broadcastId _ _ _ _ _ _
  next hgiven =>
    refine ⟨Or.inl ⟨rfl, fun call hcall => ?_⟩, fun hempty => absurd hempty hgiven⟩
    obtain ⟨receivers, _, hcall⟩ := mem_emitted_ofExcept hcall
    obtain ⟨receiver, _, rfl⟩ := List.mem_map.mp hcall
    exact broadcastTo_broadcastId _ _ _ _ _ _

theorem onReceivePull_continues (draws : List ℕ) (msg : Message) (data ip : Str) (port : ℕ) :
    pm.Continues msg.broadcastId (pm.onReceivePull hash draws msg data ip port) := by
  unfold onReceivePull
  dsimp only
  split
  next =>
    split
    next => exact Or.inl ⟨rfl, by simp⟩
    next => exact Or.inl ⟨rfl, by simp [sendRequest, sendPull, Message.mkEth]⟩
  next =>
    exact (broadcast_continues hash
      { pm with dataMap := mapInsert (beforeBar data, afterBar data) pm.dataMap } draws
      (afterBar data) 0 msg.broadcastId).1
  next =>
    split
    next => exact Or.inl ⟨rfl, by simp⟩
    next => exact Or.inl ⟨rfl, by simp [sendData, sendPull, Message.mkEth]⟩
  next => exact Or.inl ⟨rfl, by simp⟩

theorem onReceive_continues (draws : List ℕ) (msg : Message) (data ip : Str) (port : ℕ) :
    pm.Continues msg.broadcastId (pm.onReceive hash draws msg data ip port) := by
  unfold onReceive
  split
  next => exact Or.inl ⟨rfl, by simp⟩
  next =>
    split
    next => exact pm.onReceivePull_continues hash draws msg data ip port
    next =>
      unfold onReceivePush
      split
      next => exact Or.inl ⟨rfl, by simp⟩
      next =>
        exact (broadcast_continues hash { pm with
          broadcastedMsgsAllNodes := pm.broadcastedMsgsAllNodes ++ [msg.broadcastId] } draws data
          (msg.ttl - 1) msg.broadcastId).1

/-- Every list of messages that a node sends on its own account has one broadcast id, for
which an entry is noted. -/
theorem step_issuedBetween (event : GossipEvent) :
    (∀ msgs ∈ pm.generations hash event, ∃ id, ∀ msg ∈ msgs, msg.broadcastId = id) ∧
      IssuedBetween (broadcastIdText pm.node.id) pm.broadcastedMsgs.length
        (pm.step hash event).broadcastedMsgs.length (pm.generatedIds hash event) := by
  cases event with
  | broadcast draws data ttl =>
      obtain ⟨hcontinues, hnoted⟩ := pm.broadcast_continues hash draws data ttl []
      simp only [generatedIds, generations, step, List.flatMap_singleton,
        List.forall_mem_singleton, List.forall_mem_map]
      obtain ⟨hsame, _⟩ | ⟨hnoted, hids⟩ := hcontinues
      · have := hnoted rfl
        rw [hsame] at this
        omega
      · refine ⟨⟨_, hids⟩, ?_⟩
        rw [hnoted]
        exact .dedup (by simpa using hids)
  | receive now draws ip port data =>
      simp only [generatedIds, generations, step, receive]
      cases readDatagramETH pm.mode data with
      | error fault => exact ⟨List.forall_mem_nil _, .nil⟩
      | ok read =>
          cases read with
          | none => exact ⟨List.forall_mem_nil _, .nil⟩
          | some read =>
              obtain ⟨msg, dataInMsg⟩ := read
              have hcontinues := onReceive_continues hash
                { pm with msgTable := pm.msgTable.insertReceived now msg } draws msg dataInMsg ip
                port
              simp only [List.flatMap_singleton, List.forall_mem_singleton]
              obtain ⟨hsame, hids⟩ | ⟨hnoted, hids⟩ := hcontinues
              · -- a message that is passed on keeps its broadcast id
                rw [hsame, List.filter_eq_nil_iff.mpr (by simpa using hids)]
                exact ⟨⟨[], List.forall_mem_nil _⟩, .nil⟩
              · rw [hnoted]
                have hown := List.forall_mem_map (f := SendCallETH.msg)
                  (P := fun sent => sent.broadcastId = _) |>.mpr hids
                refine ⟨⟨_, fun sent hsent => hown sent (List.mem_of_mem_filter hsent)⟩,
                  .dedup (List.forall_mem_map.mpr fun sent hsent =>
                    hown sent (List.mem_of_mem_filter hsent))⟩
  | send now call => exact ⟨List.forall_mem_nil _, .nil⟩

theorem step_node (event : GossipEvent) : (pm.step hash event).node = pm.node := by
  cases event with
  | broadcast draws data ttl => exact (pm.broadcast_sameNode hash draws data ttl []).node
  | receive now draws ip port data =>
      simp only [step, receive]
      split
      next => rfl
      next => rfl
      next msg dataInMsg _ =>
        exact (onReceive_sameNode { pm with msgTable := pm.msgTable.insertReceived now msg } hash
          draws msg dataInMsg ip port).node
  | send now call => rfl

end PeerManagerETH

/-- Nodes of the ring protocol issue broadcast ids. -/
def peerIssuer : Issuer PeerManager PeerEvent Str Str where
  step pm event := pm.step event
  issued pm event := pm.generatedIds event
  owner pm := pm.node.id
  counter pm := pm.broadcastedMsgs.length
  name := broadcastIdText
  owner_step pm event := congrArg Node.id (pm.step_issuedBetween event).1
  issued_between pm event := (pm.step_issuedBetween event).2.2

/-- Nodes of the gossip protocol issue broadcast ids. -/
def gossipIssuer (hash : Str → ℕ) : Issuer PeerManagerETH GossipEvent Str Str where
  step pm event := pm.step hash event
  issued pm event := pm.generatedIds hash event
  owner pm := pm.node.id
  counter pm := pm.broadcastedMsgs.length
  name := broadcastIdText
  owner_step pm event := congrArg Node.id (pm.step_node hash event)
  issued_between pm event := (pm.step_issuedBetween hash event).2

/-- Ids of full length and padded numbers can be told apart, also when a number has
outgrown its padding. -/
theorem broadcastIdText_inj {id id' : Str} (h : id.length = 32) (h' : id'.length = 32) {n n' : ℕ}
    (heq : broadcastIdText id n = broadcastIdText id' n') : id = id' ∧ n = n' := by
  obtain ⟨hid, hnumber⟩ := List.append_inj heq (h.trans h'.symm)
  exact ⟨hid, Decimal.padded_injective 16 hnumber⟩

/-- Nodes with different ids never make a broadcast id twice, in any sequence of
broadcasts, elections, receipts and sends at any of them. The ids are those of the
messages sent, where all messages of one broadcast have the same. -/
theorem broadcastIds_nodup {ι : Type*} [DecidableEq ι] :
    (∀ managers : ι → PeerManager, (∀ i, (managers i).node.id.length = 32) →
      Function.Injective (fun i => (managers i).node.id) →
      ∀ events, (peerIssuer.run managers events).Nodup) ∧
    (∀ (hash : Str → ℕ) (managers : ι → PeerManagerETH), (∀ i, (managers i).node.id.length = 32) →
      Function.Injective (fun i => (managers i).node.id) →
      ∀ events, ((gossipIssuer hash).run managers events).Nodup) ∧
    (∀ (pm : PeerManager) event, ∀ msgs ∈ pm.generations event,
      ∃ id, ∀ msg ∈ msgs, msg.broadcastId = id) ∧
    (∀ (pm : PeerManager) draws level,
      (pm.generations (.contactNodeElection draws level)).flatten =
        (pm.contactNodeElection draws level).2.emitted.map SendCall.msg) ∧
    ∀ (hash : Str → ℕ) (pm : PeerManagerETH) event, ∀ msgs ∈ pm.generations hash event,
      ∃ id, ∀ msg ∈ msgs, msg.broadcastId = id := by
  refine ⟨fun managers hlength hdistinct => ?_, fun hash managers hlength hdistinct => ?_,
    fun pm event => (pm.step_issuedBetween event).2.1, PeerManager.flatten_generations,
    fun hash pm event => (pm.step_issuedBetween hash event).1⟩
  · refine Issuer.nodup_run fun i j n n' heq => ?_
    obtain ⟨hid, hnumber⟩ := broadcastIdText_inj (hlength i) (hlength j) heq
    exact ⟨hdistinct hid, hnumber⟩
  · refine Issuer.nodup_run fun i j n n' heq => ?_
    obtain ⟨hid, hnumber⟩ := broadcastIdText_inj (hlength i) (hlength j) heq
    exact ⟨hdistinct hid, hnumber⟩

/-- Two nodes of each protocol, with the election of one of them among their events. -/
theorem broadcastIds_nodup_pair :
    (let ids := peerIssuer.run
        (fun single : Fin 2 => fourNetwork.manager (firstRegionId single))
        [(0, .broadcast 0 []), (1, .broadcast 1 []), (0, .contactNodeElection [0, 1, 2] 1)]
     ids.Nodup ∧ ids.length = 4) ∧
    let ids := (gossipIssuer List.length).run
      (fun single : Fin 2 =>
        ⟨districtNode single, (List.range 13).map districtNode, ⟨[]⟩, [], [], .push, []⟩)
      [(0, .broadcast [0, 1, 2] [] 1), (1, .broadcast [0, 1, 2] [] 1),
        (0, .broadcast [0, 1, 2] [] 1)]
    ids.Nodup ∧ ids.length = 3 := by
  have hlength : ∀ single : Fin 2, (districtNode single).id.length = 32 := by decide
  have hdistinct : Function.Injective fun single : Fin 2 => (districtNode single).id :=
    fun _ _ heq => Fin.ext (firstRegionId_injective heq)
  exact ⟨⟨broadcastIds_nodup.1 _ hlength hdistinct _, by decide +kernel⟩,
    broadcastIds_nodup.2.1 List.length _ hlength hdistinct _, by decide +kernel⟩

end Hgfrr
