import Hgfrr.Protocol.Network

/-!
# Handlers refine the overlay

One lemma for each routine of the peer manager, from a single step of the tree
up to `on_receive`: no failure, the sends of the overlay, and only routine
calls of `send`.
-/

namespace Hgfrr

open Emission

variable {net : Network} {id : Str} {pm : PeerManager}

/-- What a routine of `id` does when it behaves: it ends without failure, sends
what the overlay says, and only routine messages. -/
structure Performs (net : Network) (routine : Sends) (hops : List (Hop Str)) : Prop where
  no_failure : routine.failure = none
  hops_eq : routine.emitted.map SendCall.hop = hops
  routine : ∀ call ∈ routine.emitted, Routine net call

theorem performs_done : Performs net Emission.done [] := ⟨rfl, rfl, by simp⟩

theorem performs_sequence {ι : Type*} {items : List ι} {run : ι → Sends}
    {hops : ι → List (Hop Str)} (h : ∀ i ∈ items, Performs net (run i) (hops i)) :
    Performs net (sequence (items.map run)) (items.flatMap hops) := by
  obtain ⟨hfailure, hhops, hroutine⟩ := sequence_flatMap SendCall.hop
    (Routine net) fun i hi => ⟨(h i hi).no_failure, (h i hi).hops_eq, (h i hi).routine⟩
  exact ⟨hfailure, hhops, hroutine⟩

theorem performs_single {routine : Sends} {hops : List (Hop Str)}
    (h : Performs net routine hops) : Performs net (sequence [routine]) hops := by
  have hlist : Performs net (sequence ([()].map fun _ => routine)) ([()].flatMap fun _ => hops) :=
    performs_sequence fun _ _ => h
  rwa [List.flatMap_singleton] at hlist

section Steps

variable {k level order i : ℕ} {ring : Ring}

/-- The position that a step computes lies in the peer list. -/
theorem ringStep_target (hk : 2 ≤ k) (id : Str)
    (hi : i ∈ PowerTree.exponents k order ring.peerList.length) :
    ∃ peer, ring.peerList[((ringStep k ring.peerList.length order
        (Overlay.place ring.peerIds id) i).targetNodeIdInVector).toNat]? = some peer ∧
      0 ≤ (ringStep k ring.peerList.length order
        (Overlay.place ring.peerIds id) i).targetNodeIdInVector ∧
      Overlay.target ring.peerIds id (k ^ i) = some peer.id := by
  obtain ⟨horder, hsize⟩ := (PowerTree.mem_exponents hk).mp hi
  have hlen : ring.peerIds.length = ring.peerList.length := List.length_map _
  have hlow := Overlay.neg_one_le_place ring.peerIds id
  have hhigh := Overlay.place_lt ring.peerIds id
  rw [hlen] at hhigh
  obtain ⟨heq, hpos, hlt⟩ := wrapTarget_eq hlow hhigh
    (Nat.pow_pos (n := i) (show 0 < k by omega)) (by omega)
  obtain ⟨peer, hpeer⟩ : ∃ peer, ring.peerList[(wrapTarget (Overlay.place ring.peerIds id)
      ((k ^ i : ℕ) : ℤ) ((ring.peerList.length : ℤ) - 1)).toNat]? = some peer :=
    ⟨_, List.getElem?_eq_getElem (by omega)⟩
  simp only [ringStep]
  push_cast at hpeer hpos heq
  refine ⟨peer, hpeer, hpos, ?_⟩
  rw [Overlay.target, hlen]
  push_cast
  have hget : ∀ j : ℕ, ring.peerIds[j]? = ring.peerList[j]?.map Node.id :=
    fun j => List.getElem?_map
  rw [← heq, hget, hpeer]
  rfl

variable (hruns : net.Runs id pm) (hid : id ∈ net.ids) (hring : net.ringOf id level = some ring)
include hruns hid hring

theorem receiverOf_ok {step : RingStep} {peer : Node} (hpos : 0 ≤ step.targetNodeIdInVector)
    (hpeer : ring.peerList[step.targetNodeIdInVector.toNat]? = some peer) :
    pm.receiverOf level step = .ok peer := by
  have hget := (net.hasRings id hid).getPeerByOrder_of_some hring hpos hpeer
  rw [PeerManager.receiverOf, hruns.2, hget]
  rfl

/-- One step of the tree: the receiver gets its order, and is asked to relay
downwards exactly when the overlay says so. -/
theorem sendStep_ok (hk : 2 ≤ k) {msg : Message} (data : Str) (sentIds : List Str)
    (hsender : msg.senderId = id) (hlevel : msg.fromLevel = level)
    (hi : i ∈ PowerTree.exponents k order ring.peerList.length) :
    ∃ call, pm.sendStep msg level data sentIds
        (ringStep k ring.peerList.length order (Overlay.place ring.peerIds id) i) = .ok call ∧
      ((Overlay.target ring.peerIds id (k ^ i)).map fun y =>
        Hop.ring y level (order + k ^ i) (level != 0 && hasZeroSingle y)) = some call.hop ∧
      Routine net call := by
  obtain ⟨peer, hpeer, hpos, htarget⟩ := ringStep_target hk id hi
  have hmem : peer ∈ ring.peerList := List.mem_of_getElem? hpeer
  have hpeerId := Network.peer_mem hid hring hmem
  have hreceiver := receiverOf_ok hruns hid hring hpos hpeer
  have hsubstr : substr peer.id 23 9 = .ok ((peer.id.drop 23).take 9) :=
    substr_of_le (by rw [net.length_id _ hpeerId]; omega)
  have hsenderLength : msg.senderId.length = 32 := hsender ▸ net.length_id id hid
  have hsix : msg.fromLevel < 6 := hlevel ▸ Network.level_lt_six hid hring
  have horder : ((order : ℤ) + k ^ i).toNat = order + k ^ i := by
    rw [show ((order : ℤ) + k ^ i) = ((order + k ^ i : ℕ) : ℤ) by push_cast; rfl, Int.toNat_natCast]
  have hnonneg : 0 ≤ (order : ℤ) + k ^ i := by positivity
  rw [PeerManager.sendStep, hreceiver, htarget]
  rcases Nat.eq_zero_or_pos level with rfl | hposLevel
  · refine ⟨_, rfl, ?_, ⟨hpeerId, hsenderLength, Or.inr (Or.inr ⟨Or.inr rfl, ?_, hnonneg⟩)⟩⟩
    · simp [SendCall.hop, hlevel, ringStep, horder]
    · simpa using hsix
  · have hne : level ≠ 0 := by omega
    simp only [bind, Except.bind, hne, if_false, hsubstr]
    by_cases hzero : (peer.id.drop 23).take 9 = zeroSingle
    · refine ⟨_, rfl, ?_, ⟨hpeerId, hsenderLength, Or.inr (Or.inr ⟨Or.inl ?_, ?_, hnonneg⟩)⟩⟩
      · simp [SendCall.hop, hlevel, ringStep, horder, hzero, hasZeroSingle, hne]
      · simp [hzero]
      · simpa using hsix
    · refine ⟨_, rfl, ?_, ⟨hpeerId, hsenderLength, Or.inr (Or.inr ⟨Or.inr ?_, ?_, hnonneg⟩)⟩⟩
      · simp [SendCall.hop, hlevel, ringStep, horder, hzero, hasZeroSingle]
      · simp [hzero]
      · simpa using hsix

/-- The node's own pass over a ring. -/
theorem broadcastWithinRing_of_some (hk : 2 ≤ k) {msg : Message} {data : Str} {sentIds : List Str}
    (hsender : msg.senderId = id) (hlevel : msg.fromLevel = level)
    (horder : msg.nodeOrder = order) :
    Performs net (pm.broadcastWithinRing msg level k data sentIds)
      (net.overlay.sends k ⟨id, level, order⟩) := by
  obtain ⟨start, length, hstart, hstartLe⟩ := levelToId_ok (Network.level_lt_six hid hring)
  have hrings := net.hasRings id hid
  have hsubstr : ∀ x ∈ net.ids, substr x start length = .ok ((x.drop start).take length) :=
    fun x hx => substr_of_le (by rw [net.length_id x hx]; exact hstartLe)
  obtain ⟨regionIds, hregionIds⟩ : ∃ regionIds,
      ((PowerTree.exponents k order ring.peerList.length).map
        (ringStep k ring.peerList.length order (Overlay.place ring.peerIds id))).mapM
        (fun step => do
          let receiver ← pm.receiverOf level step
          substr receiver.id start length) = .ok regionIds := by
    refine Except.exists_mapM_ok_iff.mpr fun step hstep => ?_
    obtain ⟨i, hi, rfl⟩ := List.mem_map.mp hstep
    obtain ⟨peer, hpeer, hpos, _⟩ := ringStep_target hk id hi
    rw [receiverOf_ok hruns hid hring hpos hpeer]
    exact ⟨_, hsubstr _ (Network.peer_mem hid hring (List.mem_of_getElem? hpeer))⟩
  unfold PeerManager.broadcastWithinRing
  simp only [hruns.1, hruns.2, hrings.getPeerListSize_of_some hring,
    hrings.getNodeIdInVector_of_some hring, place_eq, hstart, hsubstr id hid, horder,
    ringSteps_eq_exponents hk, bind, Except.bind]
  simp only [bind, Except.bind] at hregionIds
  rw [hregionIds]
  simp only [pure, Except.pure, ofExcept_ok, List.map_map, Function.comp_def]
  have hsends : net.overlay.sends k ⟨id, level, order⟩ =
      (PowerTree.exponents k order ring.peerList.length).filterMap fun i =>
        (Overlay.target ring.peerIds id (k ^ i)).map fun y =>
          Hop.ring y level (order + k ^ i) (level != 0 && hasZeroSingle y) := by
    have hlen : ring.peerIds.length = ring.peerList.length := List.length_map _
    simp only [Overlay.sends, Network.overlay_ring_of_some hring, hlen]
    rfl
  rw [hsends]
  obtain ⟨hfailure, hhops, hroutine⟩ := sequence_emit SendCall.hop (Routine net)
    fun i hi => sendStep_ok hruns hid hring hk data _ hsender hlevel hi
  exact ⟨hfailure, hhops, hroutine⟩

end Steps

section Passes

variable (hruns : net.Runs id pm) (hid : id ∈ net.ids)
include hruns hid

/-- Without a ring at a level nothing is sent there. -/
theorem broadcastWithinRing_of_none {level : ℕ} (hring : net.ringOf id level = none)
    (hlevel : level < 6) {msg : Message} (horder : -1 ≤ msg.nodeOrder) (data : Str)
    (sentIds : List Str) :
    Performs net (pm.broadcastWithinRing msg level 2 data sentIds) [] := by
  obtain ⟨start, length, hstart, hstartLe⟩ := levelToId_ok hlevel
  have hrings := net.hasRings id hid
  have hsubstr : substr id start length = .ok ((id.drop start).take length) :=
    substr_of_le (by rw [net.length_id id hid]; exact hstartLe)
  have hsteps : ∀ fuel, ringSteps (-1) msg.nodeOrder (-1) 2 (fuel + 1) 0 = .ok [] := by
    intro fuel
    rw [ringSteps, if_neg]
    simp only [pow_zero]
    omega
  unfold PeerManager.broadcastWithinRing
  simp only [hruns.1, hruns.2, hrings.getPeerListSize_of_none hring,
    hrings.getNodeIdInVector_of_none hring, hstart, hsubstr, hsteps, bind, Except.bind]
  exact performs_done

/-- One pass of the overlay, for any level an id has a segment for. -/
theorem broadcastWithinRing_performs {level order : ℕ} (hlevel : level < 6) {msg : Message}
    (hsender : msg.senderId = id) (hfrom : msg.fromLevel = level) (horder : msg.nodeOrder = order)
    (data : Str) (sentIds : List Str) :
    Performs net (pm.broadcastWithinRing msg level 2 data sentIds)
      (net.overlay.sends 2 ⟨id, level, order⟩) := by
  cases hring : net.ringOf id level with
  | none =>
      simp only [Overlay.sends, Network.overlay_ring_of_none hring]
      exact broadcastWithinRing_of_none hruns hid hring hlevel (by omega) data sentIds
  | some ring => exact broadcastWithinRing_of_some hruns hid hring le_rfl hsender hfrom horder

/-- The hops of what a node starts around its rings. -/
def Relay.hops (net : Network) (id : Str) : Relay → List (Hop Str)
  | .up _ _ => []
  | .withinRing m l _ => net.overlay.sends 2 ⟨id, l, m.nodeOrder.toNat⟩

/-- A pass of its own order, then the starts of all rings below. -/
theorem ringRelays_perform {level order : ℕ} (hlevel : level < 6) {rand : ℕ} {msg new : Message}
    {messageId data : Str} {sentIds : List Str} (hsender : new.senderId = id)
    (hfrom : new.fromLevel = level) (horder : new.nodeOrder = order) :
    Performs net (sequence ((Relay.withinRing new level sentIds ::
        pm.downwards msg messageId (List.range level).reverse).map (pm.runRelay rand data)))
      ((⟨id, level, order⟩ :: Overlay.startAll id (levelsBelow level)).flatMap
        (net.overlay.sends 2)) := by
  have hhops : (⟨id, level, order⟩ :: Overlay.startAll id (levelsBelow level)).flatMap
      (net.overlay.sends 2) =
      (Relay.withinRing new level sentIds ::
        pm.downwards msg messageId (List.range level).reverse).flatMap (Relay.hops net id) := by
    simp only [PeerManager.downwards, Overlay.startAll, levelsBelow, List.flatMap_cons,
      List.flatMap_map, Relay.hops, horder, Int.toNat_natCast]
    rfl
  rw [hhops]
  refine performs_sequence fun relay hrelay => ?_
  rcases List.mem_cons.mp hrelay with rfl | hbelow
  · simp only [PeerManager.runRelay, Relay.hops, horder, Int.toNat_natCast]
    exact broadcastWithinRing_performs hruns hid hlevel hsender hfrom horder data sentIds
  · obtain ⟨l, hl, rfl⟩ := List.mem_map.mp hbelow
    have hlt : l < level := by simpa using hl
    exact broadcastWithinRing_performs hruns hid (by omega : l < 6) hruns.1 rfl rfl data []

/-- The way up: one contact node of the ring above is asked. -/
theorem broadcastUp_of_contacts {level : ℕ} {ring : Ring}
    (hring : net.ringOf id (level + 1) = some ring) (hne : ring.contactNodes ≠ []) (rand : ℕ)
    (msg : Message) (data : Str) (hsender : msg.senderId = id) (htype : msg.type = 0)
    (hfrom : msg.fromLevel = level) :
    ∃ c ∈ ring.contactIds, Performs net (pm.broadcastUp rand msg level data)
      [.climb c (level + 1)] := by
  have hsix := Network.level_lt_six hid hring
  have hlevel : ulong ((level : ℤ) + 1) = level + 1 := by
    exact_mod_cast ulong_of_lt (n := level + 1) (by omega)
  have hlen : 0 < ring.contactNodes.length := List.length_pos_iff.mpr hne
  obtain ⟨entry, hentry, hcontact⟩ := Network.exists_contact hlen rand
  refine ⟨entry.2.id, hcontact, ?_⟩
  have hup : pm.broadcastUp rand msg level data =
      Emission.emit ⟨entry.2, msg.setReceiverId entry.2.id, data, []⟩ := by
    rw [PeerManager.broadcastUp, hlevel, hruns.2,
      (net.hasRings id hid).getContactNodes_of_some hring]
    simp only [ofExcept_ok, List.length_map, if_neg hlen.ne', List.getElem?_map, hentry,
      Option.map_some]
  rw [hup]
  refine ⟨rfl, ?_, ?_⟩
  · simp [SendCall.hop, htype, hfrom]
  · intro call hcall
    obtain rfl : call = _ := by simpa using hcall
    refine ⟨net.contacts_mem id hid ring (Network.mem_tables_of_ringOf hring) _ hcontact, ?_,
      Or.inl ⟨htype, by simp only [Message.setReceiverId_fromLevel]; omega⟩⟩
    exact hsender ▸ net.length_id id hid

/-- A node that lacks the ring it is asked about sends nothing. -/
theorem broadcastUp_of_none {level rand : ℕ} {msg : Message} {data : Str}
    (hring : net.ringOf id level = none) (hlevel : level < 6) (horder : msg.nodeOrder = -1) :
    Performs net (pm.broadcastUp rand msg level data) [] := by
  have hulong : ulong ((level : ℤ) + 1) = level + 1 := by
    exact_mod_cast ulong_of_lt (n := level + 1) (by omega)
  rw [PeerManager.broadcastUp, hulong, hruns.2,
    (net.hasRings id hid).getContactNodes_of_none (Network.ringOf_succ_of_none hring)]
  simp only [ofExcept_ok, List.length_nil, if_true]
  exact broadcastWithinRing_of_none hruns hid hring hlevel (by omega) data []

end Passes

/-- The common part of types 0 and 1: what a node does next that is asked to act
for its ring at `level`. -/
def climbRelays (net : Network) (pm : PeerManager) (msg : Message) (messageId : Str)
    (sentIds : List Str) (level : ℕ) : List Relay :=
  let new (type : ℤ) : Message :=
    Message.mkHgfrr msg.broadcastId messageId type level pm.node.id []
  if (net.ringOf pm.node.id level).isNone then [.up (new 1) level]
  else if (net.overlay.contactsAt pm.node.id (level + 1)).length = 0 then
    .withinRing ((new 2).setNodeOrder 0) level sentIds ::
      pm.downwards msg messageId (List.range level).reverse
  else [.up (new 0) level]

section Handlers

variable (hruns : net.Runs id pm) (hid : id ∈ net.ids)
include hruns hid

theorem controlFlow_same {msg : Message} (htype : msg.type = 1) (hlevel : msg.fromLevel < 6)
    (messageId : Str) (sentIds : List Str) :
    pm.controlFlow msg messageId sentIds =
      .ok (climbRelays net pm msg messageId sentIds msg.fromLevel) := by
  have hulong : ulong ((msg.fromLevel : ℤ) + 1) = msg.fromLevel + 1 := by
    exact_mod_cast ulong_of_lt (n := msg.fromLevel + 1) (by omega)
  obtain ⟨nodes, hnodes, hids⟩ := Network.getContactNodes_eq hid (msg.fromLevel + 1)
  have hlen := congrArg List.length hids
  rw [List.length_map] at hlen
  simp only [PeerManager.controlFlow, htype, hruns.2, Network.isContactNode_eq hid, hulong, hnodes,
    climbRelays, hruns.1, ← hlen, bind, Except.bind, pure, Except.pure]
  cases net.ringOf id msg.fromLevel with
  | none => rfl
  | some ring =>
      simp only [Option.isSome_some, Bool.not_true, Bool.false_eq_true, if_false,
        Option.isNone_some]
      split <;> rfl

theorem controlFlow_lower {msg : Message} (htype : msg.type = 0) (hlevel : msg.fromLevel + 1 < 6)
    (messageId : Str) (sentIds : List Str) :
    pm.controlFlow msg messageId sentIds =
      .ok (climbRelays net pm msg messageId sentIds (msg.fromLevel + 1)) := by
  have hulong : ulong ((msg.fromLevel : ℤ) + 1) = msg.fromLevel + 1 := by
    exact_mod_cast ulong_of_lt (n := msg.fromLevel + 1) (by omega)
  have hulong' : ulong ((msg.fromLevel : ℤ) + 2) = msg.fromLevel + 1 + 1 := by
    exact_mod_cast ulong_of_lt (n := msg.fromLevel + 1 + 1) (by omega)
  obtain ⟨nodes, hnodes, hids⟩ := Network.getContactNodes_eq hid (msg.fromLevel + 1 + 1)
  have hlen := congrArg List.length hids
  rw [List.length_map] at hlen
  simp only [PeerManager.controlFlow, htype, hruns.2, Network.isContactNode_eq hid, hulong,
    hulong', hnodes, climbRelays, hruns.1, ← hlen, bind, Except.bind, pure, Except.pure]
  cases net.ringOf id (msg.fromLevel + 1) with
  | none => rfl
  | some ring =>
      simp only [Option.isSome_some, Bool.not_true, Bool.false_eq_true, if_false,
        Option.isNone_some]
      split <;> rfl

theorem climb_refines {level : ℕ} (hlevel : level < 6) (rand : ℕ) (msg : Message)
    (messageId data : Str) (sentIds : List Str) :
    ∃ hops, Performs net (sequence ((climbRelays net pm msg messageId sentIds level).map
        (pm.runRelay rand data))) hops ∧
      net.overlay.React (.climb id level) hops := by
  simp only [climbRelays, hruns.1]
  cases hring : net.ringOf id level with
  | none =>
      have hnone : ¬ net.overlay.AtTop id level := by
        simp [Overlay.AtTop, Network.overlay_ring_of_none hring]
      refine ⟨[], ?_, ?_⟩
      · exact performs_single (broadcastUp_of_none hruns hid hring hlevel rfl)
      · have hreact : net.overlay.React (.climb id level) _ := .relay fun x l heq hsome => by
          obtain ⟨rfl, rfl⟩ : id = x ∧ level = l := by simpa using heq
          simp [Network.overlay_ring_of_none hring] at hsome
        simpa [Overlay.calls, hnone] using hreact
  | some ring =>
      have hsome : (net.overlay.ring id level).isSome := by
        rw [Network.overlay_ring_of_some hring]
        rfl
      simp only [Option.isNone_some, Bool.false_eq_true, if_false]
      by_cases hupper : (net.overlay.contactsAt id (level + 1)).length = 0
      · have hnil := List.length_eq_zero_iff.mp hupper
        have hreact : net.overlay.React (.climb id level) _ := .relay fun x l heq _ => by
          obtain ⟨rfl, rfl⟩ : id = x ∧ level = l := by simpa using heq
          exact hnil
        rw [if_pos hupper]
        refine ⟨_, ringRelays_perform hruns hid hlevel rfl rfl rfl, ?_⟩
        have hcalls : net.overlay.calls (.climb id level) =
            ⟨id, level, 0⟩ :: Overlay.startAll id (levelsBelow level) := by
          rw [Overlay.calls, if_pos ⟨hsome, hnil⟩, levelsBelow_succ]
          rfl
        rwa [hcalls] at hreact
      · rw [if_neg hupper]
        obtain ⟨upper, hring', hne⟩ : ∃ upper, net.ringOf id (level + 1) = some upper ∧
            upper.contactNodes ≠ [] := by
          cases hring' : net.ringOf id (level + 1) with
          | none =>
              simp [Overlay.contactsAt, Network.overlay_ring_of_none hring'] at hupper
          | some upper =>
              refine ⟨upper, rfl, fun hnil => hupper ?_⟩
              simp [Overlay.contactsAt, Network.overlay_ring_of_some hring', Ring.contactIds, hnil]
        obtain ⟨c, hc, hperforms⟩ := broadcastUp_of_contacts hruns hid hring' hne rand
          (Message.mkHgfrr msg.broadcastId messageId 0 level id []) data rfl rfl rfl
        refine ⟨_, performs_single hperforms, Overlay.React.up hsome ?_⟩
        simpa [Overlay.contactsAt, Network.overlay_ring_of_some hring'] using hc

/-- Handling a routine message never fails, is a reaction of the overlay, and
sends routine messages only, whatever the tables, the log and the random value
are. -/
theorem onReceive_refines {call : SendCall} (hcall : Routine net call)
    (hreceiver : call.receiver.id = id) (rand : ℕ) :
    ∃ hops, Performs net (pm.onReceive rand call.msg call.data call.sentIds) hops ∧
      net.overlay.React call.hop hops := by
  obtain ⟨delay, hdelay⟩ := hopDelay_ok call.msg.senderId (by rw [net.length_id id hid]; omega)
  rw [PeerManager.onReceive, hruns.1, hdelay, ofExcept_ok]
  rcases hcall.kind with ⟨htype, hlevel⟩ | ⟨htype, hlevel⟩ | ⟨htype, hlevel, horder⟩
  · rw [controlFlow_lower hruns hid htype hlevel, ofExcept_ok]
    simp only [SendCall.hop, htype, hreceiver]
    exact climb_refines hruns hid hlevel rand call.msg _ call.data call.sentIds
  · rw [controlFlow_same hruns hid htype hlevel, ofExcept_ok]
    simp only [SendCall.hop, htype, hreceiver]
    exact climb_refines hruns hid hlevel rand call.msg _ call.data call.sentIds
  · obtain ⟨order, horder⟩ := Int.eq_ofNat_of_zero_le horder
    rcases htype with htype | htype
    · simp only [PeerManager.controlFlow, htype, ofExcept_ok, SendCall.hop, horder,
        Int.toNat_natCast, hreceiver]
      refine ⟨_, ringRelays_perform hruns hid hlevel hruns.1 rfl rfl, ?_⟩
      exact Overlay.React.relay fun x l heq => by simp at heq
    · simp only [PeerManager.controlFlow, htype, ofExcept_ok, SendCall.hop, horder,
        Int.toNat_natCast, hreceiver]
      have hpass : Performs net (pm.runRelay rand call.data (.withinRing
          ((Message.mkHgfrr call.msg.broadcastId pm.nextMessageId 2 call.msg.fromLevel pm.node.id
            []).setNodeOrder order) call.msg.fromLevel call.sentIds))
          (net.overlay.sends 2 ⟨id, call.msg.fromLevel, order⟩) := by
        refine broadcastWithinRing_performs hruns hid hlevel ?_ ?_ ?_ call.data call.sentIds
        · exact hruns.1
        · rfl
        · rfl
      refine ⟨_, performs_single hpass, ?_⟩
      have hreact : net.overlay.React (.ring id call.msg.fromLevel order false) _ :=
        .relay fun x l heq => by simp at heq
      simpa [Overlay.calls] using hreact

end Handlers

/-! ## Runs -/

namespace Network

/-- A step of the network is a reaction of the overlay among routine messages. -/
theorem react_refines {call : SendCall} {outs : List SendCall} (hcall : Routine net call)
    (h : net.React call outs) :
    net.overlay.React call.hop (outs.map SendCall.hop) ∧ ∀ out ∈ outs, Routine net out := by
  obtain ⟨pm, rand, arrived, hruns, harrives, hreceive⟩ := h
  obtain ⟨hops, hperforms, hreact⟩ := onReceive_refines hruns hcall.receiver_mem
    (harrives.routine hcall) (congrArg Node.id harrives.receiver) rand
  rw [hreceive] at hperforms
  rw [harrives.hop_eq] at hreact
  exact ⟨hperforms.hops_eq ▸ hreact, hperforms.routine⟩

theorem neverFails {call : SendCall} (hcall : Routine net call) : net.NeverFails call := by
  intro pm rand arrived hruns harrives
  obtain ⟨hops, hperforms, _⟩ := onReceive_refines hruns hcall.receiver_mem
    (harrives.routine hcall) (congrArg Node.id harrives.receiver) rand
  exact hperforms.no_failure

/-- Runs of the network are runs of its overlay. -/
theorem reachable_refines {init : Multiset SendCall} {cfg : Cascade.Config SendCall}
    (hinit : ∀ call ∈ init, Routine net call) (hrun : Cascade.Reachable net.React init cfg) :
    Cascade.Reachable net.overlay.React (init.map SendCall.hop) (cfg.map SendCall.hop) :=
  hrun.map _ SendCall.hop (Routine net) hinit fun _ _ hcall hstep => react_refines hcall hstep

theorem routine_of_reachable {init : Multiset SendCall} {cfg : Cascade.Config SendCall}
    (hinit : ∀ call ∈ init, Routine net call) (hrun : Cascade.Reachable net.React init cfg) :
    (∀ call ∈ cfg.inFlight, Routine net call) ∧ ∀ call ∈ cfg.handled, Routine net call :=
  hrun.all_messages hinit fun _ _ hcall hstep => (react_refines hcall hstep).2

end Network

end Hgfrr
