import Hgfrr.Overlay.FanOut
import Hgfrr.Protocol.Broadcast
import Hgfrr.Protocol.InRing

/-!
# The fan-out of the starter

A ring is started with a fan-out that is passed as an argument. A message does not
carry it, and whoever relays the message takes two.
-/

namespace Hgfrr

/-- Every other member of a ring has handled at most one message of it, and one when
none is left in flight. -/
structure Network.CoversOnce (level : ℕ) (peers : List Str) (r : Str)
    (cfg : Cascade.Config SendCall) : Prop where
  at_most_once : ∀ y ∈ peers, y ≠ r → cfg.handled.countP (SendCall.To y level) ≤ 1
  exactly_once : (∀ m ∈ cfg.inFlight, ¬ m.InRing level) → ∀ y ∈ peers, y ≠ r →
    cfg.handled.countP (SendCall.To y level) = 1

section Runs

variable {net : Network} {level : ℕ} {peers : List Str} {r : Str} {init : List SendCall}

/-- Starting with base two covers the ring. -/
theorem Network.coversOnce_of_binary (hshared : net.SharedRing level peers) (hr : r ∈ peers)
    (hinit : ∀ call ∈ init, Routine net call)
    (hhops : init.map SendCall.hop = net.overlay.sends 2 ⟨r, level, 0⟩)
    {cfg : Cascade.Config SendCall} (hrun : Cascade.Reachable net.React init cfg) :
    Network.CoversOnce level peers r cfg := by
  obtain ⟨counted, hcounted, rfl⟩ := hrun.counted
  have hspans := Network.spansRing_of_run hshared hr hinit hhops hcounted
  have hcount : ∀ y, (counted.map Prod.fst).handled.countP (SendCall.To y level) =
      counted.handled.countP fun m => m.1.To y level := by
    intro y
    rw [Cascade.Config.map_handled, List.countP_map]
    rfl
  refine ⟨fun y hy _ => (hcount y).trans_le (hspans.at_most_once y hy), ?_⟩
  intro hquiet y hy hne
  rw [hcount]
  refine hspans.exactly_once (fun m hm => ?_) y hy hne
  exact hquiet m.1 (Multiset.mem_map_of_mem Prod.fst hm)

/-- If the start skips the second seat, some run in which the ring comes to rest skips
it as well. -/
theorem Network.exists_run_skipping (hagreed : net.overlay.Agreed level peers)
    (hinit : ∀ call ∈ init, Routine net call) {s : ℕ}
    (hskips : ∀ call ∈ init, Overlay.SkipsTwo level peers s call.hop) :
    ∃ cfg, Cascade.Reachable net.React init cfg ∧ (∀ m ∈ cfg.inFlight, ¬ m.InRing level) ∧
      ∀ m ∈ cfg.handled, Overlay.SkipsTwo level peers s m.hop := by
  have hkeeps : ∀ m outs, Routine net m ∧ Overlay.SkipsTwo level peers s m.hop →
      net.React m outs → ∀ o ∈ outs, Routine net o ∧ Overlay.SkipsTwo level peers s o.hop := by
    rintro m outs ⟨hroutine, hskip⟩ hstep o ho
    obtain ⟨hreact, hroutines⟩ := Network.react_refines hroutine hstep
    exact ⟨hroutines o ho, hagreed.skipsTwo_of_react hskip hreact _ (List.mem_map_of_mem ho)⟩
  have hgood : ∀ m ∈ (init : Multiset SendCall),
      Routine net m ∧ Overlay.SkipsTwo level peers s m.hop :=
    fun m hm => ⟨hinit m (Multiset.mem_coe.mp hm), hskips m (Multiset.mem_coe.mp hm)⟩
  have hdescends : ∀ m, Routine net m ∧ Overlay.SkipsTwo level peers s m.hop → m.InRing level →
      ∃ outs, net.React m outs ∧ ∀ o ∈ outs,
        (Routine net o ∧ Overlay.SkipsTwo level peers s o.hop) ∧
          (o.InRing level →
            peers.length - o.msg.nodeOrder.toNat < peers.length - m.msg.nodeOrder.toNat) := by
    rintro m hm hring
    have hstep := Network.react_handle (fun _ => 0) hm.1
    refine ⟨_, hstep, fun o ho => ⟨hkeeps m _ hm hstep o ho, fun horing => ?_⟩⟩
    obtain ⟨hreact, _⟩ := Network.react_refines hm.1 hstep
    obtain ⟨_, hhop⟩ := SendCall.hop_of_inRing hring
    obtain ⟨_, hohop⟩ := SendCall.hop_of_inRing horing
    have hmem := List.mem_map_of_mem (f := SendCall.hop) ho
    rw [hhop] at hreact
    rw [hohop] at hmem
    have hlt := Overlay.order_lt_of_react hreact hmem rfl
    obtain ⟨_, l, order, _, heq, _, hplace⟩ := (hkeeps m _ hm hstep o ho).2
    rw [hohop] at heq
    injection heq with _ hl horder _
    rcases hplace with hlower | ⟨_, hsize, _⟩
    · omega
    · omega
  obtain ⟨cfg, hrun, hquiet⟩ :=
    (Cascade.Reachable.refl net.React init).exists_without _ _ hdescends hgood
  exact ⟨cfg, hrun, hquiet, fun m hm => ((hrun.all_messages hgood hkeeps).2 m hm).2⟩

end Runs

/-- A ring started with any fan-out from two on is covered, every member once in every
order of delivery, if and only if the fan-out is two or the ring has at most two
members. -/
theorem fanOut_covers_iff {net : Network} {level : ℕ} {peers : List Str}
    (hshared : net.SharedRing level peers) {r : Str} (hr : r ∈ peers) {pm : PeerManager}
    (hruns : net.Runs r pm) {msg : Message} (hlevel : msg.fromLevel = level)
    (hsender : msg.senderId = r) (horder : msg.nodeOrder = 0) {k : ℕ} (hk : 2 ≤ k) (data : Str)
    (sentIds : List Str) :
    ∃ init, pm.broadcastWithinRing msg level k data sentIds = ⟨init, none⟩ ∧
      ((∀ cfg, Cascade.Reachable net.React (init : List SendCall) cfg →
        Network.CoversOnce level peers r cfg) ↔ k = 2 ∨ peers.length ≤ 2) := by
  have hagreed := hshared.agreed
  obtain ⟨hrid, ring, hring, _⟩ := hshared.holds r hr
  have hperforms : Performs net (pm.broadcastWithinRing msg level k data sentIds)
      (net.overlay.sends k ⟨r, level, 0⟩) :=
    broadcastWithinRing_of_some hruns hrid hring hk hsender hlevel horder
  refine ⟨_, by rw [← hperforms.no_failure], ?_⟩
  constructor
  · intro hcovers
    by_contra! hne
    obtain ⟨hk₂, hsize⟩ := hne
    obtain ⟨s, _, hs⟩ := seat_of_mem hr
    obtain ⟨y, hy⟩ := exists_seat (List.length_pos_of_mem hr) (s + 2)
    obtain ⟨cfg, hrun, hquiet, hskips⟩ := Network.exists_run_skipping hagreed hperforms.routine
      (s := s) (fun call hcall => hagreed.skipsTwo_of_start (by omega) hs
        (hperforms.hops_eq ▸ List.mem_map_of_mem hcall))
    have hroutine := (Network.routine_of_reachable
      (fun call hcall => hperforms.routine call (Multiset.mem_coe.mp hcall)) hrun).2
    have hone := (hcovers cfg hrun).exactly_once hquiet y (mem_of_seat hy)
      (hagreed.seat_two_ne hsize hs hy)
    have hnone : cfg.handled.countP (SendCall.To y level) = 0 := by
      refine List.countP_eq_zero.mpr fun m hm hto => ?_
      have hto' := (SendCall.to_hop (hroutine m hm)).mpr (of_decide_eq_true hto)
      exact hagreed.not_to_of_skipsTwo hsize hy (hskips m hm) hto'
    omega
  · intro hcase cfg hrun
    have hbinary : net.overlay.sends k ⟨r, level, 0⟩ = net.overlay.sends 2 ⟨r, level, 0⟩ := by
      rcases hcase with rfl | hshort
      · rfl
      · exact hagreed.sends_of_short hshort hk hr
    exact Network.coversOnce_of_binary hshared hr hperforms.routine
      (hperforms.hops_eq.trans hbinary) hrun

/-- A district of three nodes, all of them contact nodes. -/
def threeNetwork : Network := districtNetwork 3 3 three_le_singles le_rfl

theorem threeNetwork_sharedRing : threeNetwork.SharedRing 0 (firstIds 3) := by
  refine ⟨nodup_firstIds 3, fun x hx => ⟨hx, districtRing 0 3 3, ?_, districtRing_peerIds 0 3 3⟩⟩
  simp [Network.ringOf, threeNetwork, districtNetwork, districtTable]

/-- The message of a node that starts its ring. -/
def startMessage (id : Str) : Message := (Message.mkHgfrr [] [] 2 0 id []).setNodeOrder 0

theorem fanOut_covers_iff_three :
    ∃ init, (threeNetwork.manager (firstRegionId 0)).broadcastWithinRing
        (startMessage (firstRegionId 0)) 0 2 [] [] = ⟨init, none⟩ ∧
      ((∀ cfg, Cascade.Reachable threeNetwork.React (init : List SendCall) cfg →
        Network.CoversOnce 0 (firstIds 3) (firstRegionId 0) cfg) ↔
          2 = 2 ∨ (firstIds 3).length ≤ 2) :=
  fanOut_covers_iff threeNetwork_sharedRing (by decide) ⟨rfl, rfl⟩ rfl rfl rfl le_rfl [] []

/-- Started with fan-out three, a ring of three leaves out its last member. -/
theorem fanOut_three_misses_member : ¬ ∀ (net : Network) (level : ℕ) (peers : List Str) (r : Str)
    (pm : PeerManager) (msg : Message) (k : ℕ) (data : Str) (sentIds : List Str),
    net.SharedRing level peers → r ∈ peers → net.Runs r pm → msg.fromLevel = level →
    msg.senderId = r → msg.nodeOrder = 0 → 2 ≤ k →
    ∃ init, pm.broadcastWithinRing msg level k data sentIds = ⟨init, none⟩ ∧
      ∀ cfg, Cascade.Reachable net.React (init : List SendCall) cfg →
        Network.CoversOnce level peers r cfg := by
  intro h
  have hmem : firstRegionId 0 ∈ firstIds 3 := by decide
  have hruns : threeNetwork.Runs (firstRegionId 0) (threeNetwork.manager (firstRegionId 0)) :=
    ⟨rfl, rfl⟩
  obtain ⟨init, hinit, hcovers⟩ := h threeNetwork 0 (firstIds 3) (firstRegionId 0)
    (threeNetwork.manager (firstRegionId 0)) (startMessage (firstRegionId 0)) 3 [] []
    threeNetwork_sharedRing hmem hruns rfl rfl rfl (by omega)
  have hroutine : ∀ call ∈ init, Routine threeNetwork call := by
    have hperforms : Performs threeNetwork
        ((threeNetwork.manager (firstRegionId 0)).broadcastWithinRing
          (startMessage (firstRegionId 0)) 0 3 [] []) _ :=
      broadcastWithinRing_of_some hruns hmem
        (show threeNetwork.ringOf _ _ = some (districtRing 0 3 3) from rfl) (by omega) rfl rfl rfl
    rw [hinit] at hperforms
    exact hperforms.routine
  have hrun := Network.reachable_execute_list (fun _ => 0) 5 hroutine
  obtain rfl : ((threeNetwork.manager (firstRegionId 0)).broadcastWithinRing
      (startMessage (firstRegionId 0)) 0 3 [] []).emitted = init := congrArg Emission.emitted hinit
  have hone := (hcovers _ hrun).exactly_once (by decide +kernel) (firstRegionId 2) (by decide)
    (by decide)
  revert hone
  decide +kernel

end Hgfrr
