import Hgfrr.Protocol.Hierarchy

/-!
# How often a ring is started

A ring with two entries, contact nodes with single id zero or the contact node
at which the climb ends, is started by each of them. The sent ids that travel
with the messages do not prevent it. Without such rings every ring is started
once, in every run.
-/

namespace Hgfrr

/-- No ring has two entries, at whichever contact node of the top ring the climb
ends. -/
def Network.SingleEntries (net : Network) (top : ℕ) : Prop :=
  ∀ t ∈ net.ids, ∀ ring, net.ringOf t top = some ring → t ∈ ring.contactIds →
    net.overlay.OneEntry net.ids top t

section Entries

variable {net : Network} {top : ℕ} {call : SendCall} {cfg : Cascade.Config SendCall}

/-- All climbs to the top in one run end at the same contact node. -/
theorem HierarchyBroadcast.exists_end (h : HierarchyBroadcast net top call cfg)
    (hentries : net.SingleEntries top) :
    ∃ t, (∀ m ∈ cfg.handled, m.AsksFor top → m.receiver.id = t) ∧
      net.overlay.OneEntry net.ids top t := by
  by_cases harrived : ∃ m ∈ cfg.handled, m.AsksFor top
  · obtain ⟨m, hm, hasks⟩ := harrived
    obtain ⟨hmem, ring, hring, hcontact⟩ := h.asked_is_contact hm hasks
    refine ⟨m.receiver.id, fun m' hm' hasks' => ?_, hentries _ hmem ring hring hcontact⟩
    rw [h.asked_unique hm' hm hasks' hasks]
  · obtain ⟨_, x, hx, _⟩ := h.first
    obtain ⟨t, ht, view, hview, hcontact⟩ := h.hier.exists_contact hx le_rfl
    obtain ⟨ring, hring, rfl⟩ := Network.exists_ring_of_overlay hview
    exact ⟨t, fun m hm hasks => absurd ⟨m, hm, hasks⟩ harrived, hentries t ht ring hring hcontact⟩

end Entries

/-- Rings are started once, and every node handles one message inside a ring of
each level at most, over a hierarchy without rings of two entries. -/
theorem broadcast_starts_rings_once {net : Network} {top : ℕ}
    (hier : IsHierarchy net.overlay net.ids top) (hentries : net.SingleEntries top) {id : Str}
    (hid : id ∈ net.ids) {pm : PeerManager} (hruns : net.Runs id pm) (rand : ℕ) (data : Str) :
    ∃ call, (pm.broadcast rand data).2 = ⟨[call], none⟩ ∧
      ∀ cfg, Cascade.Reachable net.React {call} cfg →
        (∀ x ∈ net.ids, ∀ level ring, net.ringOf x level = some ring →
          (net.ringStarts cfg).countP (fun start => start.1 ∈ ring.peerIds ∧ start.2 = level) ≤
            1) ∧
        ∀ x level, cfg.handled.countP (SendCall.To x level) ≤ 1 := by
  obtain ⟨call, hcall, hbroadcast⟩ := hierarchyBroadcast_of_broadcast hier hid hruns rand data
  refine ⟨call, hcall, fun cfg hrun => ?_⟩
  have h := hbroadcast cfg hrun
  obtain ⟨t, ht, hentry⟩ := h.exists_end hentries
  exact ⟨fun x hx level ring hring => h.starts_ring_once ht hentry hx hring,
    h.handles_level_once ht hentry⟩

theorem broadcast_starts_rings_once_district :
    ∃ call, (((districtNetwork 2 1 (by omega) (by omega)).manager (firstRegionId 1)).broadcast
        0 []).2 = ⟨[call], none⟩ ∧
      ∀ cfg, Cascade.Reachable (districtNetwork 2 1 (by omega) (by omega)).React {call} cfg →
        (∀ x ∈ (districtNetwork 2 1 (by omega) (by omega)).ids, ∀ level ring,
          (districtNetwork 2 1 (by omega) (by omega)).ringOf x level = some ring →
          ((districtNetwork 2 1 (by omega) (by omega)).ringStarts cfg).countP
            (fun start => start.1 ∈ ring.peerIds ∧ start.2 = level) ≤ 1) ∧
        ∀ x level, cfg.handled.countP (SendCall.To x level) ≤ 1 := by
  refine broadcast_starts_rings_once (districtNetwork_isHierarchy (by omega)) ?_
    (show firstRegionId 1 ∈ firstIds 2 by decide) ⟨rfl, rfl⟩ 0 []
  intro t _ ring _ _ x _ level view hview hlevel c hc c' hc' _ _
  have hcontacts : view.contacts = firstIds 1 := by
    rcases districtNetwork_ring.mp hview with ⟨_, rfl⟩ | ⟨_, _, rfl⟩ <;> rfl
  rw [hcontacts, firstIds, List.range_one, List.map_singleton, List.mem_singleton] at hc hc'
  exact hc.trans hc'.symm

/-! ## A ring that is started twice -/

theorem two_le_three : 2 ≤ 3 := by omega

/-- Three nodes, two of them contact nodes. -/
def trioNetwork : Network := districtNetwork 3 2 three_le_singles two_le_three

/-- The first message of a broadcast by the first of the three nodes, to itself. -/
def trioCall : SendCall where
  receiver := districtNode 0
  msg := (Message.mkHgfrr (firstRegionId 0 ++ setw 16 0) (firstRegionId 0 ++ setw 24 0) 1 0
    (firstRegionId 0) []).setReceiverId (firstRegionId 0)
  data := []
  sentIds := []

/-- The first node asks the second to act for the upper ring. The second starts
both rings, and the first, whose single id is zero, starts the lower ring
again, so that the third node gets two messages of it. -/
theorem trioNetwork_starts_ring_twice :
    IsHierarchy trioNetwork.overlay trioNetwork.ids 1 ∧
    ((trioNetwork.manager (firstRegionId 0)).broadcast 0 []).2 = ⟨[trioCall], none⟩ ∧
    ∃ cfg, Cascade.Reachable trioNetwork.React {trioCall} cfg ∧
      (trioNetwork.ringStarts cfg).countP
        (fun start => start.1 ∈ (districtRing 0 3 2).peerIds ∧ start.2 = 0) = 2 ∧
      cfg.handled.countP (SendCall.To (firstRegionId 2) 0) = 2 := by
  have hier : IsHierarchy trioNetwork.overlay trioNetwork.ids 1 :=
    districtNetwork_isHierarchy (by omega)
  have hcall : ((trioNetwork.manager (firstRegionId 0)).broadcast 0 []).2 =
      ⟨[trioCall], none⟩ := by decide +kernel
  obtain ⟨call, hcall', hbroadcast⟩ := hierarchyBroadcast_of_broadcast hier
    (show firstRegionId 0 ∈ firstIds 3 by decide)
    (show trioNetwork.Runs _ (trioNetwork.manager (firstRegionId 0)) from ⟨rfl, rfl⟩) 0 []
  obtain rfl : call = trioCall := by simpa using hcall'.symm.trans hcall
  have hroutine := (hbroadcast _ (Cascade.Reachable.refl _ _)).first.1
  exact ⟨hier, hcall, _, Network.reachable_execute (fun _ => 1) 12 hroutine,
    by decide +kernel, by decide +kernel⟩

end Hgfrr
