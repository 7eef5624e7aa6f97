import Hgfrr.Overlay.Once
import Hgfrr.Protocol.Broadcast
import Hgfrr.Protocol.InRing
import Hgfrr.Protocol.Payload

/-!
# Broadcast over a hierarchy of rings

The node tables form a hierarchy when all members of a ring agree on it and the
contact nodes of rings form the rings above. A broadcast then reaches everybody
as soon as each ring below the top has a contact node that relays downwards.
Rings are started once only if no ring has two such entries.
-/

namespace Hgfrr

/-- The call asks its receiver to act for its ring at a level, on the way up. -/
def SendCall.AsksFor (level : ℕ) (call : SendCall) : Prop :=
  (call.msg.type = 0 ∧ call.msg.fromLevel + 1 = level) ∨
    (call.msg.type = 1 ∧ call.msg.fromLevel = level)

instance (level : ℕ) : DecidablePred (SendCall.AsksFor level) := fun call =>
  inferInstanceAs (Decidable ((call.msg.type = 0 ∧ call.msg.fromLevel + 1 = level) ∨
    (call.msg.type = 1 ∧ call.msg.fromLevel = level)))

/-- The level of a relay that starts a ring: `broadcast_within_ring` with order
zero. -/
def Relay.startedLevel : Relay → Option ℕ
  | .up _ _ => none
  | .withinRing msg level _ => if msg.nodeOrder = 0 then some level else none

/-- The levels at which the receiver of a call starts its rings. -/
def Network.startedLevels (net : Network) (call : SendCall) : List ℕ :=
  match PeerManager.controlFlow ⟨call.receiver, net.table call.receiver.id, ⟨[]⟩, []⟩ call.msg []
      call.sentIds with
  | .ok relays => relays.filterMap Relay.startedLevel
  | .error _ => []

/-- The starts of rings in a run: node and level, once for each start. -/
def Network.ringStarts (net : Network) (cfg : Cascade.Config SendCall) : List (Str × ℕ) :=
  cfg.handled.flatMap fun call => (net.startedLevels call).map (call.receiver.id, ·)

section Starts

variable {net : Network}

theorem startedLevel_downwards (pm : PeerManager) (msg : Message) (messageId : Str)
    (levels : List ℕ) :
    (pm.downwards msg messageId levels).filterMap Relay.startedLevel = levels := by
  simp [PeerManager.downwards, List.filterMap_map, Function.comp_def, Relay.startedLevel]

theorem startLevels_startAll (x : Str) (levels : List ℕ) :
    ((Overlay.startAll x levels).filter fun c => c.order = 0).map Overlay.Call.level = levels := by
  have hall : (Overlay.startAll x levels).filter (fun c => c.order = 0) =
      Overlay.startAll x levels :=
    List.filter_eq_self.mpr fun c hc => decide_eq_true (Overlay.mem_startAll.mp hc).2.2
  rw [hall, Overlay.startAll, List.map_map]
  exact List.map_id _

theorem startedLevel_climbRelays (pm : PeerManager) (msg : Message) (messageId : Str)
    (sentIds : List Str) (level : ℕ) :
    (climbRelays net pm msg messageId sentIds level).filterMap Relay.startedLevel =
      ((net.overlay.calls (.climb pm.node.id level)).filter fun c => c.order = 0).map
        Overlay.Call.level := by
  have htop : net.overlay.AtTop pm.node.id level ↔ (net.ringOf pm.node.id level).isNone = false ∧
      (net.overlay.contactsAt pm.node.id (level + 1)).length = 0 := by
    rw [Overlay.AtTop, List.length_eq_zero_iff]
    simp [Network.overlay]
  unfold climbRelays
  simp only [Overlay.calls, htop]
  by_cases hnone : (net.ringOf pm.node.id level).isNone
  · simp [hnone, Relay.startedLevel]
  · by_cases hupper : (net.overlay.contactsAt pm.node.id (level + 1)).length = 0
    · have hfirst : Relay.startedLevel (.withinRing
          ((Message.mkHgfrr msg.broadcastId messageId 2 level pm.node.id []).setNodeOrder 0) level
          sentIds) = some level := rfl
      rw [if_neg hnone, if_pos hupper, if_pos ⟨eq_false_of_ne_true hnone, hupper⟩,
        startLevels_startAll, List.filterMap_cons_some hfirst, startedLevel_downwards,
        levelsBelow_succ]
      rfl
    · rw [if_neg hnone, if_neg hupper, if_neg fun h => hupper h.2]
      rfl

/-- The starts of a call, as the overlay counts them. -/
theorem startedLevels_eq {call : SendCall} (hcall : Routine net call) :
    net.startedLevels call =
      ((net.overlay.calls call.hop).filter fun c => c.order = 0).map Overlay.Call.level := by
  have hruns : net.Runs call.receiver.id
      ⟨call.receiver, net.table call.receiver.id, ⟨[]⟩, []⟩ := ⟨rfl, rfl⟩
  have hid := hcall.receiver_mem
  unfold Network.startedLevels
  rcases hcall.kind with ⟨htype, hlevel⟩ | ⟨htype, hlevel⟩ | ⟨htype, hlevel, horder⟩
  · rw [controlFlow_lower hruns hid htype hlevel]
    simp only [SendCall.hop, htype]
    exact startedLevel_climbRelays _ _ _ _ _
  · rw [controlFlow_same hruns hid htype hlevel]
    simp only [SendCall.hop, htype]
    exact startedLevel_climbRelays _ _ _ _ _
  · obtain ⟨order, horder⟩ := Int.eq_ofNat_of_zero_le horder
    have hfirst : ∀ descend : Bool,
        ((net.overlay.calls (.ring call.receiver.id call.msg.fromLevel order descend)).filter
          fun c => c.order = 0).map Overlay.Call.level =
        (if order = 0 then [call.msg.fromLevel] else []) ++
          if descend then levelsBelow call.msg.fromLevel else [] := by
      intro descend
      rw [Overlay.calls, List.filter_cons]
      cases descend <;> by_cases hzero : order = 0 <;>
        simp [hzero, startLevels_startAll]
    have hdown := startedLevel_downwards ⟨call.receiver, net.table call.receiver.id, ⟨[]⟩, []⟩
      call.msg [] (List.range call.msg.fromLevel).reverse
    rcases htype with htype | htype
    · simp only [PeerManager.controlFlow, htype, SendCall.hop, horder, Int.toNat_natCast, hfirst,
        List.filterMap_cons, hdown]
      by_cases hzero : order = 0 <;> simp [Relay.startedLevel, hzero, levelsBelow]
    · simp only [PeerManager.controlFlow, htype, SendCall.hop, horder, Int.toNat_natCast, hfirst]
      by_cases hzero : order = 0 <;> simp [Relay.startedLevel, hzero]

end Starts

section Runs

variable {net : Network} {top : ℕ}

theorem SendCall.hop_eq_climb {call : SendCall} (hcall : Routine net call) {x : Str} {level : ℕ} :
    call.hop = .climb x level ↔ call.receiver.id = x ∧ call.AsksFor level := by
  rcases hcall.kind with ⟨htype, _⟩ | ⟨htype, _⟩ | ⟨htype | htype, _⟩ <;>
    simp [SendCall.hop, SendCall.AsksFor, htype]

/-- A broadcast over a hierarchy: the first call, and a state of its run. -/
structure HierarchyBroadcast (net : Network) (top : ℕ) (call : SendCall)
    (cfg : Cascade.Config SendCall) : Prop where
  hier : IsHierarchy net.overlay net.ids top
  first : Routine net call ∧ ∃ x ∈ net.ids, ∃ c ∈ net.overlay.contactsAt x 0, call.hop = .climb c 0
  reachable : Cascade.Reachable net.React {call} cfg

/-- Every broadcast by a member of a hierarchy is one. -/
theorem hierarchyBroadcast_of_broadcast (hier : IsHierarchy net.overlay net.ids top) {id : Str}
    (hid : id ∈ net.ids) {pm : PeerManager} (hruns : net.Runs id pm) (rand : ℕ) (data : Str) :
    ∃ call, (pm.broadcast rand data).2 = ⟨[call], none⟩ ∧
      ∀ cfg, Cascade.Reachable net.React {call} cfg → HierarchyBroadcast net top call cfg := by
  obtain ⟨view, hview⟩ := hier.bottom id hid
  obtain ⟨ring, hring, rfl⟩ := Network.exists_ring_of_overlay hview
  have hne : ring.contactNodes ≠ [] := fun hnil =>
    hier.contacts_ne_nil id hid 0 _ hview (by simp [Ring.contactIds, hnil])
  obtain ⟨call, hcall, hroutine, c, hc, hhop⟩ := broadcast_asks hruns hid hring hne rand data
  refine ⟨call, hcall, fun cfg hrun => ⟨hier, ⟨hroutine, id, hid, c, ?_, hhop⟩, hrun⟩⟩
  simpa [Overlay.contactsAt, hview] using hc

namespace HierarchyBroadcast

variable {call : SendCall} {cfg : Cascade.Config SendCall} (h : HierarchyBroadcast net top call cfg)
include h

theorem routine :
    (∀ m ∈ cfg.inFlight, Routine net m) ∧ ∀ m ∈ cfg.handled, Routine net m :=
  Network.routine_of_reachable (by simpa using h.first.1) h.reachable

theorem hierarchyRun : net.overlay.HierarchyRun net.ids top (cfg.map SendCall.hop) := by
  obtain ⟨hroutine, x, hx, c, hc, hhop⟩ := h.first
  have hrun := Network.reachable_refines (by simpa using hroutine) h.reachable
  rw [Multiset.map_singleton, hhop] at hrun
  exact ⟨h.hier, x, hx, c, hc, hrun⟩

omit h in
theorem mem_handled_hop {hop : Hop Str} :
    hop ∈ (cfg.map SendCall.hop).handled ↔ ∃ m ∈ cfg.handled, m.hop = hop := by
  rw [Cascade.Config.map_handled, List.mem_map]

/-- The starts of rings are the calls of the overlay with order zero. -/
theorem count_ringStarts (x : Str) (level : ℕ) :
    (net.ringStarts cfg).count (x, level) =
      (net.overlay.callsOf (cfg.map SendCall.hop)).count ⟨x, level, 0⟩ := by
  have hroutine := h.routine.2
  rw [Network.ringStarts, Overlay.callsOf, Cascade.Config.map_handled, List.flatMap_map]
  clear h
  generalize cfg.handled = handled at hroutine ⊢
  induction handled with
  | nil => rfl
  | cons m rest ih =>
      rw [List.flatMap_cons, List.flatMap_cons, List.count_append, List.count_append,
        ih fun m' hm' => hroutine m' (List.mem_cons_of_mem _ hm')]
      congr 1
      rw [startedLevels_eq (hroutine m (by simp)), List.map_map]
      have hinj : ∀ c ∈ (net.overlay.calls m.hop).filter fun c => c.order = 0,
          ((m.receiver.id, c.level) = (x, level) ↔ c = ⟨x, level, 0⟩) := by
        intro c hc
        obtain ⟨hmem, hzero⟩ := List.mem_filter.mp hc
        have hnode := Overlay.node_of_mem_calls hmem
        rw [SendCall.receiver_hop] at hnode
        rcases c with ⟨node, l, order⟩
        simp_all
      rw [List.count, List.countP_map]
      have hcount : ((net.overlay.calls m.hop).filter fun c => c.order = 0).count ⟨x, level, 0⟩ =
          (net.overlay.calls m.hop).count ⟨x, level, 0⟩ := List.count_filter (by simp)
      rw [← hcount, List.count]
      refine List.countP_congr fun c hc => ?_
      simpa using hinj c hc

theorem mem_ringStarts (x : Str) (level : ℕ) :
    (x, level) ∈ net.ringStarts cfg ↔
      ⟨x, level, 0⟩ ∈ net.overlay.callsOf (cfg.map SendCall.hop) := by
  rw [← List.count_pos_iff, h.count_ringStarts, List.count_pos_iff]

/-- Whoever is asked on the way up is a contact node of the ring it is asked
about. -/
theorem asked_is_contact {m : SendCall} (hm : m ∈ cfg.handled) {level : ℕ}
    (hasks : m.AsksFor level) :
    m.receiver.id ∈ net.ids ∧ ∃ ring, net.ringOf m.receiver.id level = some ring ∧
      m.receiver.id ∈ ring.contactIds := by
  have hhop := (SendCall.hop_eq_climb (h.routine.2 m hm)).mpr ⟨rfl, hasks⟩
  have hplaced := h.hierarchyRun.placed.2 m.hop (mem_handled_hop.mpr ⟨m, hm, rfl⟩)
  rw [hhop] at hplaced
  obtain ⟨hmem, view, hview, hcontact⟩ := hplaced
  obtain ⟨ring, hring, rfl⟩ := Network.exists_ring_of_overlay hview
  exact ⟨hmem, ring, hring, hcontact⟩

theorem countP_asksFor :
    cfg.handled.countP (SendCall.AsksFor top) =
      (cfg.map SendCall.hop).handled.countP (fun hop => hop.ClimbingTo top) := by
  rw [Cascade.Config.map_handled, List.countP_map]
  refine List.countP_congr fun m hm => ?_
  simp only [Function.comp_apply, decide_eq_true_eq]
  rcases (h.routine.2 m hm).kind with ⟨htype, _⟩ | ⟨htype, _⟩ | ⟨htype | htype, _⟩ <;>
    simp [SendCall.hop, SendCall.AsksFor, htype]

/-- The climb ends at one node. -/
theorem asked_unique {m m' : SendCall} (hm : m ∈ cfg.handled) (hm' : m' ∈ cfg.handled)
    (hasks : m.AsksFor top) (hasks' : m'.AsksFor top) : m = m' := by
  have hcount := h.hierarchyRun.climbing_or_arrived
  rw [← h.countP_asksFor] at hcount
  exact List.eq_of_countP_le_one (by omega) hm hm' hasks hasks'

/-- In a complete run the climb has ended, at a node that started the top
ring. -/
theorem climb_ends (hquiet : cfg.inFlight = 0) :
    ∃ m ∈ cfg.handled, m.AsksFor top ∧ (m.receiver.id, top) ∈ net.ringStarts cfg := by
  have hcount := h.hierarchyRun.climbing_or_arrived
  rw [← h.countP_asksFor, Cascade.Config.map_inFlight, hquiet, Multiset.map_zero,
    Multiset.countP_zero, zero_add] at hcount
  obtain ⟨m, hm, hasks⟩ := List.countP_pos_iff.mp (hcount ▸ Nat.one_pos)
  have hasks := of_decide_eq_true hasks
  have hhop := (SendCall.hop_eq_climb (h.routine.2 m hm)).mpr ⟨rfl, hasks⟩
  exact ⟨m, hm, hasks, (h.mem_ringStarts _ _).mpr
    (h.hierarchyRun.call_of_arrived (mem_handled_hop.mpr ⟨m, hm, hhop⟩) le_rfl)⟩

/-- In a complete run every node has started the top ring or handled a message
inside a ring. -/
theorem reaches_everyone (hrep : net.overlay.Represented net.ids top) (hquiet : cfg.inFlight = 0)
    {x : Str} (hx : x ∈ net.ids) :
    (x, top) ∈ net.ringStarts cfg ∨
      ∃ m ∈ cfg.handled, m.receiver.id = x ∧ (m.msg.type = 2 ∨ m.msg.type = 5) := by
  have hquiet' : (cfg.map SendCall.hop).inFlight = 0 := by
    rw [Cascade.Config.map_inFlight, hquiet, Multiset.map_zero]
  rcases h.hierarchyRun.reaches_everyone hrep hquiet' hx with harrived | ⟨level, order, d, hmem⟩
  · exact Or.inl ((h.mem_ringStarts _ _).mpr (h.hierarchyRun.call_of_arrived harrived le_rfl))
  · obtain ⟨m, hm, hhop⟩ := mem_handled_hop.mp hmem
    refine Or.inr ⟨m, hm, ?_, ?_⟩
    · rw [← SendCall.receiver_hop, hhop]
      rfl
    · rcases (h.routine.2 m hm).kind with ⟨htype, _⟩ | ⟨htype, _⟩ | ⟨htype, _⟩
      · simp [SendCall.hop, htype] at hhop
      · simp [SendCall.hop, htype] at hhop
      · exact htype

theorem arrived_at {t : Str} (ht : ∀ m ∈ cfg.handled, m.AsksFor top → m.receiver.id = t) {x : Str}
    (hx : .climb x top ∈ (cfg.map SendCall.hop).handled) : x = t := by
  obtain ⟨m, hm, hhop⟩ := mem_handled_hop.mp hx
  obtain ⟨rfl, hasks⟩ := (SendCall.hop_eq_climb (h.routine.2 m hm)).mp hhop
  exact ht m hm hasks

/-- A ring that lacks a second entry is started once. -/
theorem starts_ring_once {t : Str} (ht : ∀ m ∈ cfg.handled, m.AsksFor top → m.receiver.id = t)
    (hentry : net.overlay.OneEntry net.ids top t) {x : Str} (hx : x ∈ net.ids) {level : ℕ}
    {ring : Ring} (hring : net.ringOf x level = some ring) :
    (net.ringStarts cfg).countP (fun start => start.1 ∈ ring.peerIds ∧ start.2 = level) ≤ 1 := by
  obtain ⟨hcount, hunique⟩ := h.hierarchyRun.one_start (fun _ => h.arrived_at ht) hentry hx
    (Network.overlay_ring_of_some hring)
  refine List.countP_le_one ?_ ?_
  · rintro ⟨y, level⟩ _ ⟨hy, rfl⟩
    rw [h.count_ringStarts]
    exact (hcount y hy).1
  · rintro ⟨y, level⟩ hstart ⟨z, level'⟩ hstart' ⟨hy, rfl⟩ ⟨hz, rfl⟩
    have heq := hunique y hy z hz ((h.mem_ringStarts _ _).mp hstart)
      ((h.mem_ringStarts _ _).mp hstart')
    rw [heq]

theorem handles_level_once {t : Str} (ht : ∀ m ∈ cfg.handled, m.AsksFor top → m.receiver.id = t)
    (hentry : net.overlay.OneEntry net.ids top t) (x : Str) (level : ℕ) :
    cfg.handled.countP (SendCall.To x level) ≤ 1 := by
  refine le_trans (le_of_eq ?_)
    (h.hierarchyRun.handles_once (fun _ => h.arrived_at ht) hentry x level)
  rw [Cascade.Config.map_handled, List.countP_map]
  refine List.countP_congr fun m hm => ?_
  simp only [Function.comp_apply, decide_eq_true_eq]
  exact (SendCall.to_hop (h.routine.2 m hm)).symm

end HierarchyBroadcast

end Runs

/-! ## Reach -/

section District

variable {peers contacts : ℕ} {hpeers : peers ≤ 10 ^ 9} {hcontacts : contacts ≤ peers}

/-- A node of a district sees its bottom ring, and the ring above if it is a
contact node. -/
theorem districtNetwork_ring {x : Str} {level : ℕ} {view : RingView Str} :
    (districtNetwork peers contacts hpeers hcontacts).overlay.ring x level = some view ↔
      (level = 0 ∧ view = ⟨firstIds peers, firstIds contacts⟩) ∨
        (level = 1 ∧ x ∈ firstIds contacts ∧ view = ⟨firstIds contacts, firstIds contacts⟩) := by
  rcases level with _ | _ | level
  · simp [Network.overlay, Network.ringOf, districtNetwork, districtTable, eq_comm]
  · by_cases hx : x ∈ firstIds contacts <;>
      simp [Network.overlay, Network.ringOf, districtNetwork, districtTable, hx, eq_comm]
  · by_cases hx : x ∈ firstIds contacts <;>
      simp [Network.overlay, Network.ringOf, districtNetwork, districtTable, hx]

theorem districtNetwork_isHierarchy (hpos : 0 < contacts) :
    IsHierarchy (districtNetwork peers contacts hpeers hcontacts).overlay
      (districtNetwork peers contacts hpeers hcontacts).ids 1 := by
  have hne : firstIds contacts ≠ [] := by simp [firstIds]; omega
  have hsub : ∀ c ∈ firstIds contacts, c ∈ firstIds peers := fun c =>
    mem_firstIds_of_le hcontacts
  constructor <;> simp only [districtNetwork_ring]
  case bottom => exact fun x _ => ⟨_, Or.inl ⟨trivial, rfl⟩⟩
  case highest =>
    rintro x _ level view (⟨rfl, _⟩ | ⟨rfl, _⟩) <;> omega
  case nodup =>
    rintro x _ level view (⟨_, rfl⟩ | ⟨_, _, rfl⟩) <;> exact nodup_firstIds _
  case own =>
    rintro x hx level view (⟨_, rfl⟩ | ⟨_, hcontact, rfl⟩)
    · exact hx
    · exact hcontact
  case inside =>
    rintro x hx level view (⟨_, rfl⟩ | ⟨_, _, rfl⟩) y hy
    · exact hy
    · exact hsub y hy
  case agree =>
    rintro x hx level view (⟨rfl, rfl⟩ | ⟨rfl, _, rfl⟩) y hy
    · exact ⟨_, Or.inl ⟨rfl, rfl⟩, rfl, fun _ => Iff.rfl⟩
    · exact ⟨_, Or.inr ⟨rfl, hy, rfl⟩, rfl, fun _ => Iff.rfl⟩
  case contacts_ne_nil =>
    rintro x hx level view (⟨_, rfl⟩ | ⟨_, _, rfl⟩) <;> exact hne
  case contacts_subset =>
    rintro x hx level view (⟨_, rfl⟩ | ⟨_, _, rfl⟩) c hc
    · exact hsub c hc
    · exact hc
  case above =>
    intro x hx level hlevel
    obtain rfl : level = 0 := by omega
    constructor
    · rintro ⟨view, ⟨hzero, _⟩ | ⟨_, hcontact, _⟩⟩
      · omega
      · exact ⟨_, Or.inl ⟨rfl, rfl⟩, hcontact⟩
    · rintro ⟨view, ⟨_, rfl⟩ | ⟨hone, _⟩, hcontact⟩
      · exact ⟨_, Or.inr ⟨rfl, hcontact, rfl⟩⟩
      · omega
  case shared =>
    rintro x hx level view (⟨rfl, rfl⟩ | ⟨rfl, _, rfl⟩) hlevel c hc c' hc' upper hupper
    · rcases hupper with ⟨hzero, _⟩ | ⟨_, _, rfl⟩
      · omega
      · exact hc'
    · omega
  case single =>
    rintro x hx y hy view other (⟨hzero, _⟩ | ⟨_, _, rfl⟩) (⟨hzero', _⟩ | ⟨_, hcontact, _⟩)
    · omega
    · omega
    · omega
    · exact hcontact

end District

/-- Reach: over a hierarchy in which each ring below the top has a contact node
with single id zero, a broadcast climbs to the top ring and then gets to
everybody. -/
theorem broadcast_reaches_everyone {net : Network} (hfinite : net.ids.Finite) {top : ℕ}
    (hier : IsHierarchy net.overlay net.ids top)
    (hzero : ∀ x ∈ net.ids, ∀ level ring, net.ringOf x level = some ring → level < top →
      ∃ c ∈ ring.contactIds, hasZeroSingle c = true)
    {id : Str} (hid : id ∈ net.ids) {pm : PeerManager} (hruns : net.Runs id pm) (rand : ℕ)
    (data : Str) :
    ∃ call bound, (pm.broadcast rand data).2 = ⟨[call], none⟩ ∧
      ∀ cfg, Cascade.Reachable net.React {call} cfg →
        cfg.log.length ≤ bound ∧ (∀ m ∈ cfg.inFlight, net.NeverFails m) ∧
        (cfg.inFlight = 0 →
          (∃ m ∈ cfg.handled, m.AsksFor top ∧ (∃ ring, net.ringOf m.receiver.id top = some ring) ∧
            (m.receiver.id, top) ∈ net.ringStarts cfg) ∧
          ∀ x ∈ net.ids, (x, top) ∈ net.ringStarts cfg ∨
            ∃ m ∈ cfg.handled, m.receiver.id = x ∧ (m.msg.type = 2 ∨ m.msg.type = 5) ∧
              m.msg.broadcastId = call.msg.broadcastId) := by
  obtain ⟨call, hcall, hbroadcast⟩ := hierarchyBroadcast_of_broadcast hier hid hruns rand data
  obtain ⟨bound, hbound⟩ := net.exists_bound hfinite
  refine ⟨call, bound, hcall, fun cfg hrun => ?_⟩
  have h := hbroadcast cfg hrun
  obtain ⟨hroutine, x, hx, c, hc, hhop⟩ := h.first
  have hrep : net.overlay.Represented net.ids top := by
    intro x hx level view hview hlevel
    obtain ⟨ring, hring, rfl⟩ := Network.exists_ring_of_overlay hview
    exact Or.inl (hzero x hx level ring hring hlevel)
  refine ⟨hbound call hroutine ⟨c, ?_, hhop⟩ cfg hrun, fun m hm => ?_, fun hquiet => ⟨?_, ?_⟩⟩
  · have hreceiver := hroutine.receiver_mem
    rwa [← SendCall.receiver_hop, hhop] at hreceiver
  · exact Network.neverFails (h.routine.1 m hm)
  · obtain ⟨m, hm, hasks, hstart⟩ := h.climb_ends hquiet
    obtain ⟨_, ring, hring, _⟩ := h.asked_is_contact hm hasks
    exact ⟨m, hm, hasks, ⟨ring, hring⟩, hstart⟩
  · intro x hx
    rcases h.reaches_everyone hrep hquiet hx with hstart | ⟨m, hm, hreceiver, htype⟩
    · exact Or.inl hstart
    · exact Or.inr ⟨m, hm, hreceiver, htype, (Network.payload_of_reachable hrun m hm).1⟩

theorem broadcast_reaches_everyone_pair :
    ∃ call bound, ((pairManager 1).broadcast 1 []).2 = ⟨[call], none⟩ ∧
      ∀ cfg, Cascade.Reachable pairNetwork.React {call} cfg →
        cfg.log.length ≤ bound ∧ (∀ m ∈ cfg.inFlight, pairNetwork.NeverFails m) ∧
        (cfg.inFlight = 0 →
          (∃ m ∈ cfg.handled, m.AsksFor 1 ∧
            (∃ ring, pairNetwork.ringOf m.receiver.id 1 = some ring) ∧
            (m.receiver.id, 1) ∈ pairNetwork.ringStarts cfg) ∧
          ∀ x ∈ pairNetwork.ids, (x, 1) ∈ pairNetwork.ringStarts cfg ∨
            ∃ m ∈ cfg.handled, m.receiver.id = x ∧ (m.msg.type = 2 ∨ m.msg.type = 5) ∧
              m.msg.broadcastId = call.msg.broadcastId) := by
  refine broadcast_reaches_everyone (List.finite_toSet _)
    (districtNetwork_isHierarchy (by omega)) ?_
    (show firstRegionId 1 ∈ firstIds 2 by decide) (pairNetwork_runs 1) 1 []
  intro x _ level ring hring _
  refine ⟨firstRegionId 0, ?_, by decide⟩
  rcases mem_districtTable (Network.mem_tables_of_ringOf hring) with rfl | rfl <;> decide

end Hgfrr
