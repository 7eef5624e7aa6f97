import Hgfrr.Overlay.SpanningTree
import Hgfrr.Protocol.Refinement

/-!
# Broadcast inside one ring

The members of a ring hold the same peer list. One of them starts the ring, and
the messages that follow form a spanning tree of logarithmic depth. The other
tables of the network are arbitrary.
-/

namespace Hgfrr

/-- Messages inside rings of one level, types 2 and 5. -/
def SendCall.InRing (level : ℕ) (call : SendCall) : Prop :=
  (call.msg.type = 2 ∨ call.msg.type = 5) ∧ call.msg.fromLevel = level

instance (level : ℕ) : DecidablePred (SendCall.InRing level) := fun call =>
  inferInstanceAs (Decidable ((call.msg.type = 2 ∨ call.msg.type = 5) ∧ call.msg.fromLevel = level))

/-- Such a message, for a given receiver. -/
def SendCall.To (id : Str) (level : ℕ) (call : SendCall) : Prop :=
  call.receiver.id = id ∧ call.InRing level

instance (id : Str) (level : ℕ) : DecidablePred (SendCall.To id level) := fun call =>
  inferInstanceAs (Decidable (call.receiver.id = id ∧ call.InRing level))

section Hops

variable {net : Network} {call : SendCall} {level : ℕ}

theorem SendCall.inRing_hop (hcall : Routine net call) :
    call.hop.InRing level ↔ call.InRing level := by
  rcases hcall.kind with ⟨htype, _⟩ | ⟨htype, _⟩ | ⟨htype | htype, _⟩ <;>
    simp [SendCall.hop, SendCall.InRing, htype]

theorem SendCall.hop_of_inRing (hcall : call.InRing level) :
    ∃ descend, call.hop = .ring call.receiver.id level call.msg.nodeOrder.toNat descend := by
  obtain ⟨htype | htype, rfl⟩ := hcall
  · exact ⟨true, by simp [SendCall.hop, htype]⟩
  · exact ⟨false, by simp [SendCall.hop, htype]⟩

theorem SendCall.receiver_hop (call : SendCall) : call.hop.receiver = call.receiver.id := by
  unfold SendCall.hop
  split <;> rfl

theorem SendCall.to_hop (hcall : Routine net call) {id : Str} :
    call.hop.To id level ↔ call.To id level := by
  rw [Hop.To, SendCall.To, SendCall.receiver_hop, SendCall.inRing_hop hcall]

end Hops

/-- A ring of the network whose members all hold the same list of peers. -/
structure Network.SharedRing (net : Network) (level : ℕ) (peers : List Str) : Prop where
  nodup : peers.Nodup
  holds : ∀ x ∈ peers, x ∈ net.ids ∧ ∃ ring, net.ringOf x level = some ring ∧ ring.peerIds = peers

theorem Network.SharedRing.agreed {net : Network} {level : ℕ} {peers : List Str}
    (h : net.SharedRing level peers) : net.overlay.Agreed level peers where
  nodup := h.nodup
  holds x hx := by
    obtain ⟨_, ring, hring, rfl⟩ := h.holds x hx
    exact ⟨ring.contactIds, Network.overlay_ring_of_some hring⟩

/-- The positions that a member's loop computes, for any order of its own. -/
def Network.LoopInRange (net : Network) (level : ℕ) (x : Str) (size : ℕ) : Prop :=
  ∀ pm, net.Runs x pm → ∀ order : ℕ, ∃ endId vectorId steps,
    pm.nodeTable.getPeerListSize level = .ok endId ∧
    pm.nodeTable.getNodeIdInVector level pm.node.id = .ok vectorId ∧
    ringSteps endId order vectorId 2 ((endId - order).toNat + 1) 0 = .ok steps ∧
    ∀ step ∈ steps, 0 ≤ step.targetNodeIdInVector ∧ step.targetNodeIdInVector ≤ size - 1

theorem Network.loopInRange_of_ring {net : Network} {level : ℕ} {x : Str} (hx : x ∈ net.ids)
    {ring : Ring} (hring : net.ringOf x level = some ring) :
    net.LoopInRange level x ring.peerIds.length := by
  intro pm hruns order
  have hrings := net.hasRings x hx
  refine ⟨_, _, _, hruns.2 ▸ hrings.getPeerListSize_of_some hring,
    hruns.2 ▸ hrings.getNodeIdInVector_of_some hring pm.node.id,
    ringSteps_eq_exponents le_rfl _, ?_⟩
  intro step hstep
  obtain ⟨i, hi, rfl⟩ := List.mem_map.mp hstep
  obtain ⟨peer, hpeer, hpos, _⟩ := ringStep_target le_rfl pm.node.id hi
  have hlt := (List.getElem?_eq_some_iff.mp hpeer).1
  have hlen : ring.peerIds.length = ring.peerList.length := List.length_map _
  rw [place_eq, hlen]
  exact ⟨hpos, by omega⟩

/-- What one start of a ring by `r` amounts to, at any point of the run. Each
message carries the number of messages on the chain that led to it. -/
structure Network.SpansRing (net : Network) (level : ℕ) (peers : List Str) (r : Str)
    (cfg : Cascade.Config (SendCall × ℕ)) : Prop where
  starter_none : ∀ m, m ∈ cfg.inFlight ∨ m ∈ cfg.handled → ¬ m.1.To r level
  at_most_once : ∀ y ∈ peers, cfg.handled.countP (fun m => m.1.To y level) ≤ 1
  exactly_once : (∀ m ∈ cfg.inFlight, ¬ m.1.InRing level) → ∀ y ∈ peers, y ≠ r →
    cfg.handled.countP (fun m => m.1.To y level) = 1
  placed : ∀ m, m ∈ cfg.inFlight ∨ m ∈ cfg.handled → m.1.InRing level →
    ∃ order : ℕ, m.1.msg.nodeOrder = order ∧
      peers[(peers.idxOf r + order) % peers.length]? = some m.1.receiver.id ∧
      m.2 ≤ Nat.clog 2 peers.length
  never_fails : ∀ m ∈ cfg.inFlight, net.NeverFails m.1

section Runs

variable {net : Network} {level : ℕ} {peers : List Str} {r : Str}
  {init : List SendCall} {cfg : Cascade.Config (SendCall × ℕ)}

theorem Network.routine_of_counted (hinit : ∀ call ∈ init, Routine net call)
    (hrun : Cascade.Reachable (Cascade.Counted net.React) (init.map (·, 1) : List (SendCall × ℕ))
      cfg) : (∀ m ∈ cfg.inFlight, Routine net m.1) ∧ ∀ m ∈ cfg.handled, Routine net m.1 := by
  refine hrun.all_messages ?_ fun m outs hm hstep o ho =>
    (Network.react_refines hm hstep.1).2 o.1 (List.mem_map_of_mem ho)
  intro m hm
  obtain ⟨call, hcall, rfl⟩ := List.mem_map.mp (Multiset.mem_coe.mp hm)
  exact hinit call hcall

/-- Runs that count hops are runs of the overlay that count hops. -/
theorem Network.counted_refines (hinit : ∀ call ∈ init, Routine net call)
    (hrun : Cascade.Reachable (Cascade.Counted net.React) (init.map (·, 1) : List (SendCall × ℕ))
      cfg) :
    Cascade.Reachable (Cascade.Counted net.overlay.React)
      ((init.map SendCall.hop).map (·, 1) : List (Hop Str × ℕ))
      (cfg.map fun m => (m.1.hop, m.2)) := by
  have hmapped := hrun.map (Cascade.Counted net.overlay.React) (fun m => (m.1.hop, m.2))
    (fun m => Routine net m.1)
    (fun m hm => by
      obtain ⟨call, hcall, rfl⟩ := List.mem_map.mp (Multiset.mem_coe.mp hm)
      exact hinit call hcall)
    fun m outs hm hstep => by
      obtain ⟨hreact, hroutine⟩ := Network.react_refines hm hstep.1
      refine ⟨⟨?_, ?_⟩, fun o ho => hroutine o.1 (List.mem_map_of_mem ho)⟩
      · simpa [Function.comp_def] using hreact
      · intro o ho
        obtain ⟨o', ho', rfl⟩ := List.mem_map.mp ho
        exact hstep.2 o' ho'
  simpa [Function.comp_def] using hmapped

theorem Network.spansRing_of_run (hshared : net.SharedRing level peers) (hr : r ∈ peers)
    (hinit : ∀ call ∈ init, Routine net call)
    (hhops : init.map SendCall.hop = net.overlay.sends 2 ⟨r, level, 0⟩)
    (hrun : Cascade.Reachable (Cascade.Counted net.React) (init.map (·, 1) : List (SendCall × ℕ))
      cfg) : net.SpansRing level peers r cfg := by
  have hroutine := Network.routine_of_counted hinit hrun
  have hcounted := Network.counted_refines hinit hrun
  rw [hhops] at hcounted
  have hstarter : net.overlay.StarterRun level peers r (cfg.map fun m => (m.1.hop, m.2)) :=
    ⟨hshared.agreed, hr, hcounted⟩
  have hboth : ∀ {p : SendCall × ℕ → Prop} {q : Hop Str × ℕ → Prop},
      (∀ m, Routine net m.1 → q (m.1.hop, m.2) → p m) →
      ((∀ h ∈ (cfg.map fun m => (m.1.hop, m.2)).inFlight, q h) ∧
        ∀ h ∈ (cfg.map fun m => (m.1.hop, m.2)).handled, q h) →
      ∀ m, m ∈ cfg.inFlight ∨ m ∈ cfg.handled → p m := by
    rintro p q hpq ⟨hflight, hhandled⟩ m (hm | hm)
    · exact hpq m (hroutine.1 m hm) (hflight _ (Multiset.mem_map_of_mem _ hm))
    · refine hpq m (hroutine.2 m hm) (hhandled _ ?_)
      rw [Cascade.Config.map_handled]
      exact List.mem_map_of_mem (f := fun m : SendCall × ℕ => (m.1.hop, m.2)) hm
  have hcount : ∀ y, ((cfg.map fun m => (m.1.hop, m.2)).map Prod.fst).handled.countP
      (Hop.To y level) = cfg.handled.countP (fun m => m.1.To y level) := by
    intro y
    rw [Cascade.Config.map_handled, Cascade.Config.map_handled, List.map_map, List.countP_map]
    refine List.countP_congr fun m hm => ?_
    simp only [Function.comp_apply, decide_eq_true_eq]
    exact SendCall.to_hop (hroutine.2 m hm)
  obtain ⟨s, hslt, hs⟩ := seat_of_mem hr
  have hidx : peers.idxOf r = s := by
    have hget : peers[s]? = some r := by simpa [seat, Nat.mod_eq_of_lt hslt] using hs
    obtain ⟨_, hsr⟩ := List.getElem?_eq_some_iff.mp hget
    rw [← hsr]
    exact hshared.nodup.idxOf_getElem s hslt
  refine ⟨?_, ?_, ?_, ?_, fun m hm => Network.neverFails (hroutine.1 m hm)⟩
  · exact hboth (fun m hm hnot hto => hnot ((SendCall.to_hop hm).mpr hto))
      hstarter.starter_receives_none
  · intro y hy
    rw [← hcount y]
    exact hstarter.handles_le_one hy
  · intro hquiet y hy hne
    rw [← hcount y]
    refine hstarter.handles_one (fun h hh => ?_) hy hne
    obtain ⟨m, hm, rfl⟩ := Multiset.mem_map.mp hh
    exact fun hin => hquiet m hm ((SendCall.inRing_hop (hroutine.1 m hm)).mp hin)
  · refine hboth (fun m hm htree hin => ?_) (hstarter.onTree hs)
    obtain ⟨y, l, order, descend, heq, hpos, hplace⟩ := htree
    obtain ⟨descend', hhop⟩ := SendCall.hop_of_inRing hin
    simp only [hhop, Hop.ring.injEq] at heq
    obtain ⟨rfl, rfl, horder, rfl⟩ := heq
    rcases hplace with hlower | ⟨_, hsize, hseat, hhops⟩
    · exact absurd hlower (lt_irrefl _)
    · refine ⟨order, by omega, ?_, ?_⟩
      · rw [hidx]
        exact hseat
      · exact hhops.trans (PowerTree.log2_lt_clog hpos hsize)

end Runs

/-- In-ring broadcast: a member of a ring on which all members agree starts it
with order zero. The call succeeds, every position looked up lies in the peer
list, and in every order of delivery the messages span the ring. -/
theorem broadcastWithinRing_spans_ring {net : Network} {level : ℕ} {peers : List Str}
    (hshared : net.SharedRing level peers) {r : Str} (hr : r ∈ peers) {pm : PeerManager}
    (hruns : net.Runs r pm) {msg : Message} (hlevel : msg.fromLevel = level)
    (hsender : msg.senderId = r) (horder : msg.nodeOrder = 0) (data : Str) (sentIds : List Str) :
    (∀ x ∈ peers, net.LoopInRange level x peers.length) ∧
    ∃ init, pm.broadcastWithinRing msg level 2 data sentIds = ⟨init, none⟩ ∧
      ∀ cfg, Cascade.Reachable (Cascade.Counted net.React)
        (init.map (·, 1) : List (SendCall × ℕ)) cfg → net.SpansRing level peers r cfg := by
  have hloop : ∀ x ∈ peers, net.LoopInRange level x peers.length := by
    intro x hx
    obtain ⟨hxid, ring, hring, hpeers⟩ := hshared.holds x hx
    exact hpeers ▸ Network.loopInRange_of_ring hxid hring
  obtain ⟨hrid, ring, hring, _⟩ := hshared.holds r hr
  have hperforms : Performs net (pm.broadcastWithinRing msg level 2 data sentIds)
      (net.overlay.sends 2 ⟨r, level, 0⟩) :=
    broadcastWithinRing_of_some hruns hrid hring le_rfl hsender hlevel horder
  refine ⟨hloop, _, ?_, fun cfg hrun =>
    Network.spansRing_of_run hshared hr hperforms.routine hperforms.hops_eq hrun⟩
  rw [← hperforms.no_failure]

theorem broadcastWithinRing_spans_ring_pair :
    (∀ x ∈ firstIds 2, pairNetwork.LoopInRange 1 x 2) ∧
    ∃ init, (pairManager 0).broadcastWithinRing
        ((Message.mkHgfrr [] [] 2 1 (firstRegionId 0) []).setNodeOrder 0) 1 2 [] [] =
          ⟨init, none⟩ ∧
      ∀ cfg, Cascade.Reachable (Cascade.Counted pairNetwork.React)
        (init.map (·, 1) : List (SendCall × ℕ)) cfg →
        pairNetwork.SpansRing 1 (firstIds 2) (firstRegionId 0) cfg := by
  have hshared : pairNetwork.SharedRing 1 (firstIds 2) := by
    refine ⟨nodup_firstIds 2, fun x hx => ⟨hx, districtRing 1 2 2, ?_, districtRing_peerIds 1 2 2⟩⟩
    simp [Network.ringOf, pairNetwork, districtNetwork, districtTable, hx]
  exact broadcastWithinRing_spans_ring hshared (by decide) (pairNetwork_runs 0) rfl rfl rfl [] []

end Hgfrr
