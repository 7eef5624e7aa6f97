import Hgfrr.Overlay.Termination
import Hgfrr.Protocol.Refinement

/-!
# A broadcast and its cascade

A call of `broadcast` sends one message. What follows is a run of the network
that ends after boundedly many deliveries, whatever the node tables are.
-/

namespace Hgfrr

open Emission

variable {net : Network} {id : Str} {pm : PeerManager}

/-- A broadcast asks one contact node of the originator's own ring to act for
that ring. -/
theorem broadcast_asks (hruns : net.Runs id pm) (hid : id ∈ net.ids) {ring : Ring}
    (hring : net.ringOf id 0 = some ring) (hne : ring.contactNodes ≠ []) (rand : ℕ) (data : Str) :
    ∃ call, (pm.broadcast rand data).2 = ⟨[call], none⟩ ∧ Routine net call ∧
      ∃ c ∈ ring.contactIds, call.hop = .climb c 0 := by
  have hlen : 0 < ring.contactNodes.length := List.length_pos_iff.mpr hne
  obtain ⟨entry, hentry, hcontact⟩ := Network.exists_contact hlen rand
  have hchoice : randomNumInRange rand 0 ((ring.contactNodes.length : ℤ) - 1) =
      .ok ((rand % ring.contactNodes.length : ℕ) : ℤ) := by
    rw [randomNumInRange, if_neg (by omega), sub_zero, sub_add_cancel, add_zero, Int.natCast_mod]
    rfl
  simp only [PeerManager.broadcast, hruns.2, (net.hasRings id hid).getContactNodes_of_some hring,
    ofExcept_ok, List.length_map, hchoice, Int.toNat_natCast, List.getElem?_map, hentry,
    Option.map_some]
  refine ⟨_, rfl, ⟨?_, ?_, Or.inr (Or.inl ⟨rfl, by simp⟩)⟩, entry.2.id, hcontact, rfl⟩
  · exact net.contacts_mem id hid ring (Network.mem_tables_of_ringOf hring) _ hcontact
  · simpa [hruns.1] using net.length_id id hid

namespace Network

/-- Finitely many nodes with finite tables have bounded rings. -/
theorem exists_isBounded (net : Network) (hfinite : net.ids.Finite) :
    ∃ size, IsBounded net.overlay net.ids 6 size := by
  obtain ⟨size, hsize⟩ : ∃ size, ∀ id ∈ net.ids, ∀ ring ∈ (net.table id).tables,
      ring.peerList.length ≤ size := by
    refine ⟨∑ id ∈ hfinite.toFinset, ((net.table id).tables.map fun ring =>
      ring.peerList.length).sum, fun id hid ring hring => ?_⟩
    have hone : ring.peerList.length ≤
        ((net.table id).tables.map fun ring => ring.peerList.length).sum :=
      List.le_sum_of_mem (List.mem_map_of_mem (f := fun ring => ring.peerList.length) hring)
    exact hone.trans (Finset.single_le_sum (f := fun id =>
      ((net.table id).tables.map fun ring => ring.peerList.length).sum)
      (fun _ _ => Nat.zero_le _) (hfinite.mem_toFinset.mpr hid))
  refine ⟨size, ?_, ?_, ?_, ?_⟩
  · intro x hx level view hview
    obtain ⟨ring, hring, _⟩ := exists_ring_of_overlay hview
    exact level_lt_six hx hring
  · intro x hx level view hview
    obtain ⟨ring, hring, rfl⟩ := exists_ring_of_overlay hview
    simpa [Ring.peerIds] using hsize x hx ring (mem_tables_of_ringOf hring)
  · intro x hx level view hview y hy
    obtain ⟨ring, hring, rfl⟩ := exists_ring_of_overlay hview
    exact net.peers_mem x hx ring (mem_tables_of_ringOf hring) y hy
  · intro x hx level view hview y hy
    obtain ⟨ring, hring, rfl⟩ := exists_ring_of_overlay hview
    exact net.contacts_mem x hx ring (mem_tables_of_ringOf hring) y hy

/-- A bound on the deliveries that a message to a contact node of a bottom ring
can lead to. -/
theorem exists_bound (net : Network) (hfinite : net.ids.Finite) :
    ∃ bound, ∀ call, Routine net call → (∃ c ∈ net.ids, call.hop = .climb c 0) →
      ∀ cfg, Cascade.Reachable net.React {call} cfg → cfg.log.length ≤ bound := by
  obtain ⟨size, hbounded⟩ := net.exists_isBounded hfinite
  refine ⟨(6 * size + 2) ^ (6 * (size + 1) + 6), ?_⟩
  rintro call hroutine ⟨c, hc, hhop⟩ cfg hrun
  have hrun' := Network.reachable_refines (by simpa using hroutine) hrun
  rw [Multiset.map_singleton, hhop] at hrun'
  have hle := hbounded.log_length_le (show IsBounded.Within net.ids 6 (.climb c 0) from hc) hrun'
  simpa [Cascade.Config.map, IsBounded.rank] using hle

/-! ## Executions -/

/-- What the receiver of a call sends, for a choice of random values. -/
def handle (net : Network) (rand : SendCall → ℕ) (call : SendCall) : List SendCall :=
  ((net.manager call.receiver.id).onReceive (rand call) call.msg call.data call.sentIds).emitted

/-- Handling a routine message is a reaction. -/
theorem react_handle {net : Network} (rand : SendCall → ℕ) {call : SendCall}
    (hcall : Routine net call) : net.React call (net.handle rand call) := by
  have hnone := neverFails hcall (net.manager call.receiver.id) (rand call) call ⟨rfl, rfl⟩
    (.refl call)
  exact ⟨net.manager call.receiver.id, rand call, call, ⟨rfl, rfl⟩, .refl call,
    by rw [handle, ← hnone]⟩

/-- Executions of the network are runs. -/
theorem reachable_execute_list {net : Network} (rand : SendCall → ℕ) (fuel : ℕ)
    {init : List SendCall} (hinit : ∀ call ∈ init, Routine net call) :
    Cascade.Reachable net.React init (Cascade.execute (net.handle rand) fuel init) :=
  Cascade.reachable_execute (Routine net) (fun _ hm =>
    ⟨react_handle rand hm, (react_refines hm (react_handle rand hm)).2⟩) fuel hinit

theorem reachable_execute {net : Network} (rand : SendCall → ℕ) (fuel : ℕ) {call : SendCall}
    (hcall : Routine net call) :
    Cascade.Reachable net.React {call} (Cascade.execute (net.handle rand) fuel [call]) :=
  reachable_execute_list rand fuel (by simpa using hcall)

end Network

/-- One broadcast causes boundedly many deliveries, however the node tables
contradict each other, and no handler fails on the way: in particular every
position looked up in a peer list exists. -/
theorem broadcast_cascade_finite (net : Network) (hfinite : net.ids.Finite) {id : Str}
    (hid : id ∈ net.ids) {ring : Ring} (hring : net.ringOf id 0 = some ring)
    (hcontacts : ring.contactNodes ≠ []) :
    ∃ bound, ∀ pm, net.Runs id pm → ∀ rand data, ∃ call,
      (pm.broadcast rand data).2 = ⟨[call], none⟩ ∧
        ∀ cfg, Cascade.Reachable net.React {call} cfg →
          cfg.log.length ≤ bound ∧ ∀ m ∈ cfg.inFlight, net.NeverFails m := by
  obtain ⟨bound, hbound⟩ := net.exists_bound hfinite
  refine ⟨bound, fun pm hruns rand data => ?_⟩
  obtain ⟨call, hcall, hroutine, c, hc, hhop⟩ := broadcast_asks hruns hid hring hcontacts rand data
  have hcmem := net.contacts_mem id hid ring (Network.mem_tables_of_ringOf hring) c hc
  refine ⟨call, hcall, fun cfg hrun => ⟨hbound call hroutine ⟨c, hcmem, hhop⟩ cfg hrun, ?_⟩⟩
  exact fun m hm =>
    Network.neverFails ((Network.routine_of_reachable (by simpa using hroutine) hrun).1 m hm)

theorem broadcast_cascade_finite_pair :
    (pairNetwork.ids.Finite ∧ firstRegionId 0 ∈ pairNetwork.ids ∧
      pairNetwork.ringOf (firstRegionId 0) 0 = some (districtRing 0 2 2) ∧
      (districtRing 0 2 2).contactNodes ≠ []) ∧
    ∃ bound, ∀ pm, pairNetwork.Runs (firstRegionId 0) pm → ∀ rand data, ∃ call,
      (pm.broadcast rand data).2 = ⟨[call], none⟩ ∧
        ∀ cfg, Cascade.Reachable pairNetwork.React {call} cfg →
          cfg.log.length ≤ bound ∧ ∀ m ∈ cfg.inFlight, pairNetwork.NeverFails m := by
  have hfinite : pairNetwork.ids.Finite := List.finite_toSet _
  have hmem : firstRegionId 0 ∈ pairNetwork.ids := List.mem_cons_self
  have hne : (districtRing 0 2 2).contactNodes ≠ [] := List.cons_ne_nil _ _
  exact ⟨⟨hfinite, hmem, rfl, hne⟩, broadcast_cascade_finite pairNetwork hfinite hmem rfl hne⟩

end Hgfrr
