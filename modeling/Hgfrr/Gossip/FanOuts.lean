import Hgfrr.Gossip.Push
import Hgfrr.Gossip.Pull

/-!
# When a node fans a broadcast out once

Repeats are meant to be suppressed, but the node that starts a broadcast in push
mode does not note its id where relays are looked up, and data that arrives in
pull mode is announced again even where it is held already. A node fans out once
as long as its own broadcasts do not come back with hops left, and data only
reaches nodes that lack it.
-/

namespace Hgfrr

open PeerManagerETH

namespace PeerManagerETH

/-- A packet that has no hops left, or belongs to a broadcast of another node. -/
def isForeign (pm : PeerManagerETH) (packet : Packet) : Bool :=
  match parseDatagramETH packet.text with
  | .ok datagram => datagram.ttl == ['0'] || !pm.broadcastedMsgs.contains datagram.broadcastId
  | .error _ => true

/-- A packet that brings no data, or data that the node lacks. -/
def isNews (pm : PeerManagerETH) (packet : Packet) : Bool :=
  match parseDatagramETH packet.text with
  | .ok datagram => datagram.type != 2 || (pm.dataMap.lookup (beforeBar datagram.data)).isNone
  | .error _ => true

end PeerManagerETH

section Push

variable {net : GossipHosts} {hash : Str → ℕ} {s : GossipSituation} {id : Str} {packet : Packet}
  {outcome : Mail.Outcome PeerManagerETH Packet FanOut}

/-- The broadcasts that a node starts are noted, those that it relays are not
its own. -/
def Distinguished (s : GossipSituation) : Prop :=
  ∀ id fanOut, (id, fanOut) ∈ s.events →
    (fanOut.chain = [] ↔ fanOut.broadcastId ∈ (s.node id).broadcastedMsgs)

theorem Distinguished.begin (h : Distinguished s) (hhonest : net.Honest .push s)
    (hid : id ∈ net.ids) {task : BroadcastETH}
    (hstep : (gossipNodes hash).begins (s.node id) task outcome) :
    Distinguished ((s.after id outcome).noting id task) := by
  obtain ⟨htask, ⟨log, hstate⟩, hevents, _⟩ := begins_cases hstep
  intro other fanOut hevent
  rcases List.mem_append.mp hevent with hnew | hold
  · rw [hevents] at hnew
    obtain ⟨rfl, rfl⟩ := Prod.mk.inj (List.mem_singleton.mp hnew)
    simp [hstate]
  · have hne : fanOut.broadcastId ≠ task.id := by
      obtain ⟨_, origin, task', hbegun, heq⟩ := hhonest.events other fanOut hold
      exact heq ▸ hhonest.fresh hid htask hbegun
    by_cases heq : other = id
    · subst heq
      simpa [hstate, hne] using h other fanOut hold
    · simpa [heq] using h other fanOut hold

theorem Distinguished.deliver (h : Distinguished s) (hpushing : net.Pushing s)
    (hid : id ∈ net.ids) (hpacket : packet ∈ s.flight) (hforeign : (s.node id).isForeign packet)
    (hreacts : Reacts hash (s.node id) packet outcome) : Distinguished (s.after id outcome) := by
  have hhosts := hpushing.honest.hosts id hid
  have hold : ∀ other fanOut, (other, fanOut) ∈ s.events → (fanOut.chain = [] ↔
      fanOut.broadcastId ∈ ((s.after id outcome).node other).broadcastedMsgs) := by
    intro other fanOut hevent
    by_cases heq : other = id
    · subst heq
      simpa [hreacts.own_eq] using h other fanOut hevent
    · simpa [heq] using h other fanOut hevent
  cases hreacts with
  | requests _ _ hmode => exact absurd (hmode.symm.trans hhosts.mode) (by decide)
  | replies _ _ hmode => exact absurd (hmode.symm.trans hhosts.mode) (by decide)
  | announces _ _ hmode => exact absurd (hmode.symm.trans hhosts.mode) (by decide)
  | ignores log => exact hold
  | relays log hread hmode hnew hfans =>
      obtain ⟨sender, datagram, hsaid, origin, task, hbegun, hbroadcast⟩ :=
        hpushing.honest.letters packet hpacket
      obtain ⟨_, hmsg, _, _, _, hhops⟩ := hsaid.of_read hread
      have hchain : packet.chain ≠ [] := by
        rintro hempty
        simpa [hempty] using
          (hpushing.hops packet hpacket datagram hsaid.parse origin task hbegun hbroadcast).1
      have hother : datagram.broadcastId ∉ (s.node id).broadcastedMsgs := by
        simpa [isForeign, hsaid.parse, hhops hmode] using hforeign
      intro other fanOut hevent
      rcases List.mem_append.mp hevent with hnewEvent | hevent
      · obtain ⟨rfl, rfl⟩ := Prod.mk.inj (List.mem_singleton.mp hnewEvent)
        simp [hchain, hmsg, hother]
      · exact hold other fanOut hevent

theorem push_fans_out_once (hdistinguished : Distinguished s) (hpushing : net.Pushing s)
    (id broadcastId : Str) : s.events.countP (fun event =>
      event.1 = id ∧ event.2.broadcastId = broadcastId) ≤ 1 := by
  by_cases hstarts : ∃ fanOut, (id, fanOut) ∈ s.events ∧ fanOut.broadcastId = broadcastId ∧
      fanOut.chain = []
  · -- the node started the broadcast, so none of its fan-outs is a relay
    obtain ⟨fanOut, hmem, rfl, hchain⟩ := hstarts
    refine le_trans (List.countP_mono_left fun event hevent hp => ?_)
      (hpushing.starts fanOut.broadcastId)
    obtain ⟨rfl, heq⟩ := of_decide_eq_true hp
    have hown := (hdistinguished _ _ hmem).mp hchain
    exact decide_eq_true ⟨heq, (hdistinguished event.1 event.2 hevent).mpr (heq ▸ hown)⟩
  · refine le_trans (List.countP_mono_left fun event hevent hp => ?_)
      (hpushing.relays id broadcastId)
    obtain ⟨rfl, heq⟩ := of_decide_eq_true hp
    exact decide_eq_true ⟨rfl, heq, fun hchain => hstarts ⟨event.2, hevent, heq, hchain⟩⟩

end Push

section Pull

variable {net : GossipHosts} {hash : Str → ℕ} {s : GossipSituation} {id : Str} {packet : Packet}
  {outcome : Mail.Outcome PeerManagerETH Packet FanOut}

/-- No node fans a broadcast out twice. -/
def FansOutOnce (s : GossipSituation) : Prop :=
  ∀ id broadcastId, s.events.countP (fun event =>
    event.1 = id ∧ event.2.broadcastId = broadcastId) ≤ 1

/-- A fan-out by a node that has not fanned the broadcast out before. -/
theorem FansOutOnce.after (h : FansOutOnce s) {fanOut : FanOut}
    (hevents : outcome.events = [fanOut])
    (hnew : ∀ event ∈ s.events, event.1 = id → event.2.broadcastId ≠ fanOut.broadcastId) :
    FansOutOnce (s.after id outcome) := by
  intro other broadcastId
  by_cases heq : id = other ∧ fanOut.broadcastId = broadcastId
  · obtain ⟨rfl, rfl⟩ := heq
    simpa [hevents] using fun node fanOut' hevent => hnew (node, fanOut') hevent
  · simpa [hevents, heq] using h other broadcastId

theorem FansOutOnce.begin (h : FansOutOnce s) (hhonest : net.Honest .pull s) (hid : id ∈ net.ids)
    {task : BroadcastETH} (hstep : (gossipNodes hash).begins (s.node id) task outcome) :
    FansOutOnce ((s.after id outcome).noting id task) := by
  obtain ⟨htask, _, hevents, _⟩ := begins_cases hstep
  refine h.after hevents fun event hevent _ => ?_
  obtain ⟨_, origin, task', hbegun, heq⟩ := hhonest.events event.1 event.2 hevent
  exact heq ▸ hhonest.fresh hid htask hbegun

theorem FansOutOnce.deliver (h : FansOutOnce s) (hpulling : net.Pulling hash s)
    (hid : id ∈ net.ids) (hpacket : packet ∈ s.flight) (hnews : (s.node id).isNews packet)
    (hreacts : Reacts hash (s.node id) packet outcome) : FansOutOnce (s.after id outcome) := by
  have hhosts := hpulling.honest.hosts id hid
  cases hreacts with
  | relays _ _ hmode => exact absurd (hmode.symm.trans hhosts.mode) (by decide)
  | ignores => exact h
  | requests => exact h
  | replies => exact h
  | announces log hread hmode htype hfans =>
      obtain ⟨sender, datagram, hsaid, origin, task, hbegun, hbroadcast⟩ :=
        hpulling.honest.letters packet hpacket
      obtain ⟨_, hmsg, htype', _⟩ := hsaid.of_read hread
      have hdata : datagram.type = 2 := htype'.symm.trans htype
      refine h.after rfl fun event hevent heq hsame => ?_
      -- whoever has fanned the broadcast out holds the data, so it is no news
      have hholds := hpulling.events event.1 event.2 hevent origin task hbegun
        (hsame.trans (hmsg.trans hbroadcast))
      have hlacks : ((s.node id).dataMap.lookup (beforeBar datagram.data)).isNone := by
        simpa [isNews, hsaid.parse, hdata] using hnews
      cases hpulling.letters packet hpacket sender datagram hsaid origin task hbegun hbroadcast with
      | invitation htype'' => exact absurd (hdata.symm.trans htype'') (by decide)
      | request htype'' => exact absurd (hdata.symm.trans htype'') (by decide)
      | data _ hcontent =>
          rw [hcontent, beforeBar_append (bar_not_mem_toString _)] at hlacks
          rw [Holds, heq] at hholds
          simp [Option.isNone_iff_eq_none.mp hlacks] at hholds

end Pull

/-- In every run in which no node is handed a packet of a broadcast of its own
that has hops left, in push mode, or data that it holds, in pull mode, every node
fans every broadcast out at most once. -/
theorem gossip_fans_out_once (hash : Str → ℕ) (net : GossipHosts) (duplicates : Prop)
    (node : Str → PeerManagerETH) (s : GossipSituation) :
    ((∀ id ∈ net.ids, net.Hosts .push id (node id)) →
      Mail.Reachable (gossipNodes hash) (net.rules (fun pm packet => pm.isForeign packet)
        duplicates)
        node s → ∀ id broadcastId, s.events.countP (fun event =>
          event.1 = id ∧ event.2.broadcastId = broadcastId) ≤ 1) ∧
    ((∀ id ∈ net.ids, net.Hosts .pull id (node id)) →
      (∀ id ∈ net.ids, ∀ entry ∈ (node id).dataMap, entry.1 = toString (hash entry.2)) →
      Mail.Reachable (gossipNodes hash) (net.rules (fun pm packet => pm.isNews packet) duplicates)
        node s → ∀ id broadcastId, s.events.countP (fun event =>
          event.1 = id ∧ event.2.broadcastId = broadcastId) ≤ 1) := by
  constructor
  · intro hnode hrun
    have hboth : Distinguished s ∧ net.Pushing s := by
      refine hrun.invariant (motive := fun s => Distinguished s ∧ net.Pushing s)
        ⟨by simp [Distinguished, Mail.Situation.start], .start hnode⟩ ?_ ?_ ?_
      · exact fun _ _ h hflight => ⟨h.1, h.2.withFlight hflight⟩
      · exact fun _ _ _ _ h hid hstep => ⟨h.1.begin h.2.honest hid hstep, h.2.begin hid hstep⟩
      · intro s id packet outcome h hid hpacket _ hforeign hstep
        have hreacts := receives_cases (h.2.honest.nonempty hpacket) hstep
        exact ⟨h.1.deliver h.2 hid hpacket hforeign hreacts, h.2.deliver hid hpacket hreacts⟩
    exact push_fans_out_once hboth.1 hboth.2
  · intro hnode hmaps hrun
    have hboth : FansOutOnce s ∧ net.Pulling hash s := by
      refine hrun.invariant (motive := fun s => FansOutOnce s ∧ net.Pulling hash s)
        ⟨by simp [FansOutOnce, Mail.Situation.start], .start hnode hmaps⟩ ?_ ?_ ?_
      · exact fun _ _ h hflight => ⟨h.1, h.2.withFlight hflight⟩
      · exact fun _ _ _ _ h hid hstep => ⟨h.1.begin h.2.honest hid hstep, h.2.begin hid hstep⟩
      · intro s id packet outcome h hid hpacket _ hnews hstep
        have hreacts := receives_cases (h.2.honest.nonempty hpacket) hstep
        exact ⟨h.1.deliver h.2 hid hpacket hnews hreacts, h.2.deliver hid hpacket hreacts⟩
    exact hboth.1

/-- A relay in push mode, and data that is asked for and announced in pull mode. -/
theorem gossip_fans_out_once_instance :
    (∃ record ∈ gossipRun List.length .push (fun pm packet => pm.isForeign packet)
      [.begin 0 "a,b|c".toList 2 [0, 1, 2], .deliver 0 1 [0, 1, 2]],
      record.situation.events.length = 2 ∧ record.situation.events.countP (fun event =>
        event.1 = firstRegionId 1 ∧ event.2.broadcastId = firstRegionId 0 ++ setw 16 0) ≤ 1) ∧
    ∃ record ∈ gossipRun List.length .pull (fun pm packet => pm.isNews packet)
      [.begin 0 "a,b|c".toList 0 [0, 1, 2], .deliver 0 1 [], .deliver 0 0 [],
       .deliver 0 1 [0, 1, 2]],
      record.situation.events.length = 2 ∧ record.situation.events.countP (fun event =>
        event.1 = firstRegionId 1 ∧ event.2.broadcastId = firstRegionId 0 ++ setw 16 0) ≤ 1 := by
  constructor
  · obtain ⟨record, hrecord, hlength⟩ : ∃ record ∈ gossipRun List.length .push
        (fun pm packet => pm.isForeign packet)
        [.begin 0 "a,b|c".toList 2 [0, 1, 2], .deliver 0 1 [0, 1, 2]],
          record.events.length = 2 := by
      decide +kernel
    exact ⟨record, hrecord, hlength, (gossip_fans_out_once List.length gossipDistrict False
      (newManagerETH .push) record.situation).1 (fun id _ => hosts_newManagerETH .push id)
      (reachable_gossipRun False hrecord) (firstRegionId 1) (firstRegionId 0 ++ setw 16 0)⟩
  · obtain ⟨record, hrecord, hlength⟩ : ∃ record ∈ gossipRun List.length .pull
        (fun pm packet => pm.isNews packet) [.begin 0 "a,b|c".toList 0 [0, 1, 2], .deliver 0 1 [],
          .deliver 0 0 [], .deliver 0 1 [0, 1, 2]], record.events.length = 2 := by
      decide +kernel
    exact ⟨record, hrecord, hlength, (gossip_fans_out_once List.length gossipDistrict False
      (newManagerETH .pull) record.situation).2 (fun id _ => hosts_newManagerETH .pull id)
      (by simp [newManagerETH]) (reachable_gossipRun False hrecord) (firstRegionId 1)
      (firstRegionId 0 ++ setw 16 0)⟩

/-- The second node pushes the broadcast back to the first one, which started it. -/
def echoMoves : List GossipMove :=
  [.begin 0 "a".toList 2 [0, 1, 2], .deliver 0 1 [0, 1, 2], .deliver 1 0 [0, 1, 2]]

/-- The third node is invited by the first and by the second one, and asks both
before any data arrives. -/
def twoOffersMoves : List GossipMove :=
  [.begin 0 "a".toList 0 [0, 1, 2], .deliver 0 1 [], .deliver 0 0 [], .deliver 0 1 [0, 1, 2],
    .deliver 0 2 [], .deliver 3 2 [], .deliver 0 0 [], .deliver 1 1 [], .deliver 0 2 [0, 1, 2],
    .deliver 3 2 [0, 1, 2]]

/-- Without any copies of packets, a node may fan a broadcast out twice in either
mode. -/
theorem gossip_fans_out_twice :
    (∃ s, Mail.Reachable (gossipNodes List.length) gossipDistrict.withoutCopies
        (newManagerETH .push) s ∧ ¬s.events.countP (fun event => event.1 = firstRegionId 0 ∧
          event.2.broadcastId = firstRegionId 0 ++ setw 16 0) ≤ 1) ∧
    ∃ s, Mail.Reachable (gossipNodes List.length) gossipDistrict.withoutCopies
        (newManagerETH .pull) s ∧ ¬s.events.countP (fun event => event.1 = firstRegionId 2 ∧
          event.2.broadcastId = firstRegionId 0 ++ setw 16 0) ≤ 1 := by
  constructor
  · obtain ⟨record, hrecord, hcount⟩ : ∃ record ∈ gossipRun List.length .push (fun _ _ => True)
        echoMoves, ¬record.events.countP (fun event => event.1 = firstRegionId 0 ∧
          event.2.broadcastId = firstRegionId 0 ++ setw 16 0) ≤ 1 := by
      decide +kernel
    exact ⟨record.situation, reachable_gossipRun False hrecord, hcount⟩
  · obtain ⟨record, hrecord, hcount⟩ : ∃ record ∈ gossipRun List.length .pull (fun _ _ => True)
        twoOffersMoves, ¬record.events.countP (fun event => event.1 = firstRegionId 2 ∧
          event.2.broadcastId = firstRegionId 0 ++ setw 16 0) ≤ 1 := by
      decide +kernel
    exact ⟨record.situation, reachable_gossipRun False hrecord, hcount⟩

end Hgfrr
