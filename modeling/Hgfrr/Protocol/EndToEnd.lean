import Hgfrr.Protocol.Hierarchy
import Hgfrr.Topology.Agreement

/-!
# Broadcasts over the tables that nodes form

All nodes form their tables from one topology. Where no order of maps matters, the
rings form a hierarchy in which each ring is represented, and a broadcast reaches
everybody. Otherwise the map of a ring's contact nodes may drop the node that relays
into a region.
-/

namespace Hgfrr

open Coords

namespace Topology

variable {p : Topology} {startingPortNumber : ℕ} {order : MapOrder}

/-- The table that a node forms. -/
def tableOf (p : Topology) (startingPortNumber : ℕ) (order : MapOrder) (id : Str) : NodeTable :=
  ⟨id, (BaseApp.formStructure p startingPortNumber order id).toOption.getD []⟩

theorem formStructure_tableOf (p : Topology) (startingPortNumber : ℕ) (order : MapOrder)
    (x : Coords) : BaseApp.formStructure p startingPortNumber order (text x) =
      .ok (p.tableOf startingPortNumber order (text x)).tables := by
  obtain ⟨rings, hrings⟩ := BaseApp.exists_formStructure p startingPortNumber order
    (le_trans (by decide) (le_length_text x))
  rw [tableOf, hrings]
  rfl

theorem ring_of_mem_tableOf (hfit : p.NumbersFit (p.top + 1)) {x : Coords} (hx : p.Member x)
    {ring : Ring} (hring : ring ∈ (p.tableOf startingPortNumber order (text x)).tables) :
    ∃ level, ring.Shows (BaseApp.localNode p startingPortNumber) level
      (((p.regions order).peers level x).map text) (((p.regions order).kept level x).map text) := by
  obtain ⟨level, hget⟩ := List.getElem?_of_mem hring
  have hform := formStructure_tableOf p startingPortNumber order x
  exact ⟨level, (BaseApp.ring_of_getElem? hfit hx hform hget).2⟩

theorem mem_ids_of_mem_peers {x c : Coords} (hx : p.Member x) {level : ℕ}
    (hc : c ∈ (p.regions order).peers level x) : text c ∈ p.ids :=
  ⟨c, member_iff.mp (Regions.member_of_mem_peers (member_iff.mpr hx) hc), rfl⟩

/-- The network of all nodes, each with the table that it forms. -/
def network (p : Topology) (hfit : p.NumbersFit (p.top + 1)) (startingPortNumber : ℕ)
    (order : MapOrder) : Network where
  ids := p.ids
  table := p.tableOf startingPortNumber order
  length_id := by
    rintro _ ⟨x, hx, rfl⟩
    have hmember : (p.regions order).Member x := member_iff.mpr hx
    exact length_text (fitsText_of_member hmember hfit)
  hasRings := by
    rintro _ ⟨x, hx, rfl⟩
    have htables := formStructure_tableOf p startingPortNumber order x
    have hlength := BaseApp.length_formStructure htables
    have htop : p.top ≤ 5 := top_le
    obtain ⟨ring, hget, _⟩ := (BaseApp.rings_text hfit hx htables 0).1 (Regions.hasRing_zero x)
    exact ⟨List.length_pos_of_mem (List.mem_of_getElem? hget), by omega⟩
  peers_mem := by
    rintro _ ⟨x, hx, rfl⟩ ring hring peer hpeer
    obtain ⟨level, hshows⟩ := ring_of_mem_tableOf hfit hx hring
    rw [hshows.peerIds_eq fun _ => rfl] at hpeer
    obtain ⟨c, hc, rfl⟩ := List.mem_map.mp hpeer
    exact mem_ids_of_mem_peers hx hc
  contacts_mem := by
    rintro _ ⟨x, hx, rfl⟩ ring hring contact hcontact
    obtain ⟨level, hshows⟩ := ring_of_mem_tableOf hfit hx hring
    obtain ⟨c, hc, rfl⟩ := List.mem_map.mp ((hshows.contactIds_perm fun _ => rfl).subset hcontact)
    exact mem_ids_of_mem_peers hx (Regions.mem_peers_of_mem_kept hc)

section Network

variable (hfit : p.NumbersFit (p.top + 1))

/-- The overlay of the network is that of the regions. -/
theorem depicts_network : (p.regions order).Depicts
    (p.network hfit startingPortNumber order).overlay := by
  intro x hx level
  have hmember : p.Member x := member_iff.mp hx
  have hkeyed : (p.regions order).Keyed := hfit.keyed order
  obtain ⟨hthere, hnot⟩ := BaseApp.rings_text hfit hmember
    (formStructure_tableOf p startingPortNumber order x) level
  constructor
  · intro hhas
    obtain ⟨ring, hget, hshows⟩ := hthere hhas
    refine ⟨ring.contactIds, ?_, ?_⟩
    · have hview : (p.network hfit startingPortNumber order).overlay.ring (text x) level =
          some ⟨ring.peerIds, ring.contactIds⟩ := Network.overlay_ring_of_some hget
      rwa [hshows.peerIds_eq fun _ => rfl] at hview
    · refine (hshows.contactIds_perm fun _ => rfl).trans ?_
      exact ((Regions.contacts_perm hkeyed hx).map text).symm
  · exact fun hhas => Network.overlay_ring_of_none (hnot hhas)

theorem ids_eq : (p.network hfit startingPortNumber order).ids =
    {k | ∃ x, (p.regions order).Member x ∧ (p.regions order).key x = k} := by
  ext id
  exact exists_congr fun x => and_congr_left' member_iff.symm

/-- A node with number zero has only zeros in its last segment. -/
theorem hasZeroSingle_text {x : Coords} (hx : FitsText x) (hzero : x 0 = 0) :
    hasZeroSingle (text x) = true := by
  have hdrop : (text x).drop 23 = lowText 0 x :=
    drop_text (l := 0) (by decide) fun k _ hk => hx k hk
  rw [hasZeroSingle, hdrop, lowText, hzero]
  decide

variable (hused : p.Used) (hfree : p.OrderFree)
include hused hfree

theorem isHierarchy_network : IsHierarchy (p.network hfit startingPortNumber order).overlay
    (p.network hfit startingPortNumber order).ids p.top := by
  have hR : (p.regions order).Proper := hused.proper hfit order
  rw [ids_eq]
  exact Regions.Alike.isHierarchy hR (((orderFree_iff order).mp hfree).alike hR)
    (depicts_network hfit)

theorem represented_network : (p.network hfit startingPortNumber order).overlay.Represented
    (p.network hfit startingPortNumber order).ids p.top := by
  have hR : (p.regions order).Proper := hused.proper hfit order
  have hfree' := (orderFree_iff order).mp hfree
  rw [ids_eq]
  refine Regions.ZeroKept.represented (hfree'.alike hR) (hfree'.zeroKept hR)
    (depicts_network hfit) fun x hx hzero => ?_
  exact hasZeroSingle_text (fitsText_of_member hx hfit) hzero

end Network

end Topology

/-- Once nothing is in flight any more, every node has started the top ring, or has
handled a message of the broadcast inside a ring. -/
def Network.ReachesEveryone (net : Network) (top : ℕ) (call : SendCall) : Prop :=
  ∀ cfg, Cascade.Reachable net.React {call} cfg → cfg.inFlight = 0 → ∀ x ∈ net.ids,
    (x, top) ∈ net.ringStarts cfg ∨
      ∃ m ∈ cfg.handled, m.receiver.id = x ∧ (m.msg.type = 2 ∨ m.msg.type = 5) ∧
        m.msg.broadcastId = call.msg.broadcastId

/-- Whoever broadcasts, over the tables that all nodes form, reaches everybody, if no
order of maps matters. -/
theorem formed_broadcast_reaches_everyone (p : Topology) (hused : p.Used)
    (hfit : p.NumbersFit (p.top + 1)) (hfree : p.OrderFree) (startingPortNumber : ℕ)
    (order : MapOrder) {id : Str} (hid : id ∈ p.ids) {pm : PeerManager}
    (hruns : (p.network hfit startingPortNumber order).Runs id pm) (rand : ℕ) (data : Str) :
    ∃ call bound, (pm.broadcast rand data).2 = ⟨[call], none⟩ ∧
      (p.network hfit startingPortNumber order).ReachesEveryone p.top call ∧
      ∀ cfg, Cascade.Reachable (p.network hfit startingPortNumber order).React {call} cfg →
        cfg.log.length ≤ bound ∧
          ∀ m ∈ cfg.inFlight, (p.network hfit startingPortNumber order).NeverFails m := by
  set net := p.network hfit startingPortNumber order
  obtain ⟨call, hcall, hbroadcast⟩ := hierarchyBroadcast_of_broadcast
    (Topology.isHierarchy_network hfit hused hfree) hid hruns rand data
  obtain ⟨bound, hbound⟩ := net.exists_bound p.finite_ids
  refine ⟨call, bound, hcall, fun cfg hrun hquiet x hx => ?_, fun cfg hrun => ⟨?_, fun m hm => ?_⟩⟩
  · have hreached := (hbroadcast cfg hrun).reaches_everyone
      (Topology.represented_network hfit hused hfree) hquiet hx
    rcases hreached with hstart | ⟨m, hm, hreceiver, htype⟩
    · exact Or.inl hstart
    · exact Or.inr ⟨m, hm, hreceiver, htype, (Network.payload_of_reachable hrun m hm).1⟩
  · obtain ⟨hroutine, _, _, c, _, hhop⟩ := (hbroadcast cfg hrun).first
    refine hbound call hroutine ⟨c, ?_, hhop⟩ cfg hrun
    have hreceiver := hroutine.receiver_mem
    rwa [← SendCall.receiver_hop, hhop] at hreceiver
  · exact Network.neverFails ((hbroadcast cfg hrun).routine.1 m hm)

theorem numbersFit_fourCities : fourCities.NumbersFit (fourCities.top + 1) := by
  change ∀ l < _, _
  decide

theorem formed_broadcast_reaches_everyone_fourCities :
    ∃ call bound, (((fourCities.network numbersFit_fourCities 7000 insertionOrder).manager
        (text 0)).broadcast 0 []).2 = ⟨[call], none⟩ ∧
      (fourCities.network numbersFit_fourCities 7000 insertionOrder).ReachesEveryone
        fourCities.top call ∧
      ∀ cfg, Cascade.Reachable
          (fourCities.network numbersFit_fourCities 7000 insertionOrder).React {call} cfg →
        cfg.log.length ≤ bound ∧ ∀ m ∈ cfg.inFlight,
          (fourCities.network numbersFit_fourCities 7000 insertionOrder).NeverFails m :=
  formed_broadcast_reaches_everyone fourCities ⟨by decide, by decide⟩ numbersFit_fourCities
    orderFree_fourCities 7000 insertionOrder ⟨0, ⟨by decide, fun _ _ => rfl⟩, rfl⟩ ⟨rfl, rfl⟩ 0 []

/-! ## A region that is lost -/

/-- Two states of two nodes each. Both nodes are contact nodes of their city, and one of
them is of the state. -/
def twoCapitals : Topology where
  numNodesInDist := 2
  numCnodesInDist := 2
  numNodesInCity := 2
  numCnodesInCity := 2
  numNodesInState := 2
  numCnodesInState := 1
  numNodesInCountry := 2
  numCnodesInCountry := 1
  numNodesInContinent := 0
  numContinents := 1
  numCnodesInContinent := 1

theorem numbersFit_twoCapitals : twoCapitals.NumbersFit (twoCapitals.top + 1) := by
  change ∀ l < _, _
  decide

/-- Maps that give the second node of a state first. -/
def secondFirst : MapOrder :=
  rankedOrder [text (move 0 1 0 0), text (move 3 1 (move 0 1 0 0) 0)]

def capitalsNetwork : Network := twoCapitals.network numbersFit_twoCapitals 7000 secondFirst

/-- The first message of a broadcast by the first node, to the second. -/
def capitalsCall : SendCall where
  receiver := BaseApp.localNode twoCapitals 7000 (text (move 0 1 0 0))
  msg := (Message.mkHgfrr (text 0 ++ setw 16 0) (text 0 ++ setw 24 0) 1 0 (text 0)
    []).setReceiverId (text (move 0 1 0 0))
  data := []
  sentIds := []

/-- The second node of each state is its contact node. The second state gets the
broadcast there, but a single id that is not zero relays nothing to its first node. -/
theorem formed_broadcast_misses_node : ¬∀ (p : Topology) (hfit : p.NumbersFit (p.top + 1)),
    p.Used → ∀ (startingPortNumber : ℕ) (order : MapOrder), order.KeyDetermined →
      ∀ id ∈ p.ids, ∀ pm, (p.network hfit startingPortNumber order).Runs id pm →
        ∀ rand data, ∃ call, (pm.broadcast rand data).2 = ⟨[call], none⟩ ∧
          (p.network hfit startingPortNumber order).ReachesEveryone p.top call := by
  intro h
  have hzero : text 0 ∈ twoCapitals.ids := ⟨0, ⟨by decide, fun _ _ => rfl⟩, rfl⟩
  have hsecond : text (move 0 1 0 0) ∈ twoCapitals.ids := by
    refine ⟨_, ⟨by decide, fun l hl => ?_⟩, rfl⟩
    have hpos : 0 < l := (Nat.zero_le _).trans_lt hl
    simp [move, hpos.ne']
  have hmissed : text (move 3 1 0 0) ∈ twoCapitals.ids := by
    refine ⟨_, ⟨by decide, fun l hl => ?_⟩, rfl⟩
    have hthree : 3 < l := hl
    simp [move, hthree.not_gt, hthree.ne']
  obtain ⟨call, hcall, hreaches⟩ := h twoCapitals numbersFit_twoCapitals ⟨by decide, by decide⟩
    7000 secondFirst (rankedOrder_keyDetermined _) (text 0) hzero (capitalsNetwork.manager (text 0))
    ⟨rfl, rfl⟩ 0 []
  have hfirst : ((capitalsNetwork.manager (text 0)).broadcast 0 []).2 =
      ⟨[capitalsCall], none⟩ := by
    decide +kernel
  obtain rfl : call = capitalsCall := by simpa using hcall.symm.trans hfirst
  have hroutine : Routine capitalsNetwork capitalsCall :=
    ⟨hsecond, by decide +kernel, Or.inr (Or.inl ⟨rfl, by decide⟩)⟩
  have hquiet : (Cascade.execute (capitalsNetwork.handle fun _ => 0) 40
      [capitalsCall]).inFlight = 0 := by
    decide +kernel
  rcases hreaches _ (Network.reachable_execute (fun _ => 0) 40 hroutine) hquiet _ hmissed with
    hstart | ⟨m, hm, hreceiver, _⟩
  · have hnot : (text (move 3 1 0 0), twoCapitals.top) ∉ capitalsNetwork.ringStarts
        (Cascade.execute (capitalsNetwork.handle fun _ => 0) 40 [capitalsCall]) := by
      decide +kernel
    exact hnot hstart
  · have hnot : text (move 3 1 0 0) ∉ (Cascade.execute (capitalsNetwork.handle fun _ => 0) 40
        [capitalsCall]).handled.map fun m => m.receiver.id := by
      decide +kernel
    exact hnot (List.mem_map.mpr ⟨m, hm, hreceiver⟩)

end Hgfrr
