import Hgfrr.Foundation.Counting
import Hgfrr.Gossip.Honest

/-!
# Push gossip is bounded

A node relays a broadcast once, since it notes the id. The hops that a message
has left and the hops that it has made add up to the ttl of the broadcast.
-/

namespace Hgfrr

open PeerManagerETH

/-- What every situation of a network in push mode satisfies. -/
structure GossipHosts.Pushing (net : GossipHosts) (s : GossipSituation) : Prop where
  honest : net.Honest .push s
  hops : ∀ packet ∈ s.flight, ∀ datagram, parseDatagramETH packet.text = .ok datagram →
    ∀ origin task, (origin, task) ∈ s.begun → datagram.broadcastId = task.id →
      packet.chain.getLast? = some origin ∧
        datagram.ttl = toString (task.ttl + 1 - packet.chain.length) ∧
        (0 ≤ task.ttl → packet.chain.length ≤ task.ttl + 1)
  relayed : ∀ id fanOut, (id, fanOut) ∈ s.events → fanOut.chain ≠ [] →
    fanOut.broadcastId ∈ (s.node id).broadcastedMsgsAllNodes ∧
    ∀ origin task, (origin, task) ∈ s.begun → fanOut.broadcastId = task.id →
      fanOut.chain.getLast? = some origin ∧ (0 ≤ task.ttl → fanOut.chain.length ≤ task.ttl)
  relays : ∀ id broadcastId, s.events.countP (fun event => event.1 = id ∧
    event.2.broadcastId = broadcastId ∧ event.2.chain ≠ []) ≤ 1
  starts : ∀ broadcastId, s.events.countP (fun event =>
    event.2.broadcastId = broadcastId ∧ event.2.chain = []) ≤ 1
  sent : ∀ broadcastId, s.sent.countP (fun packet => packet.broadcastId = some broadcastId) ≤
    numReceiversEth * s.events.countP fun event => event.2.broadcastId = broadcastId

section Texts

theorem eq_of_stoi_toString {z z' : ℤ} (h : stoi (toString z) = .ok z') : z' = z := by
  rw [stoi, toString, Decimal.scanInt_ofInt] at h
  dsimp only at h
  split at h
  next => exact (Except.ok.inj h).symm
  next => cases h

end Texts

section Steps

variable {net : GossipHosts} {s : GossipSituation} {hash : Str → ℕ} {id : Str}
  {outcome : Mail.Outcome PeerManagerETH Packet FanOut}

/-- A fan-out of packets that all belong to one broadcast. -/
theorem countP_fanOut_le {packets : List Packet} {fanOut : FanOut}
    (hlength : packets.length ≤ numReceiversEth)
    (hid : ∀ packet ∈ packets, packet.broadcastId = some fanOut.broadcastId) (broadcastId : Str) :
    packets.countP (fun packet => packet.broadcastId = some broadcastId) ≤
      numReceiversEth * [fanOut].countP fun event => event.broadcastId = broadcastId := by
  by_cases heq : fanOut.broadcastId = broadcastId
  · simpa [heq] using List.countP_le_length.trans hlength
  · have hnone : packets.countP (fun packet => packet.broadcastId = some broadcastId) = 0 := by
      refine List.countP_eq_zero.mpr fun packet hpacket => ?_
      simpa [hid packet hpacket] using heq
    rw [hnone]
    exact Nat.zero_le _

namespace GossipHosts.Pushing

theorem withFlight (h : net.Pushing s) {flight : Multiset Packet}
    (hflight : ∀ packet ∈ flight, packet ∈ s.flight) : net.Pushing (s.withFlight flight) where
  honest := h.honest.withFlight hflight
  hops packet hpacket := h.hops packet (hflight packet hpacket)
  relayed := h.relayed
  relays := h.relays
  starts := h.starts
  sent := h.sent

theorem start {node : Str → PeerManagerETH}
    (hnode : ∀ id ∈ net.ids, net.Hosts .push id (node id)) :
    net.Pushing (Mail.Situation.start node) where
  honest := net.honest_start hnode
  hops := by simp [Mail.Situation.start]
  relayed := by simp [Mail.Situation.start]
  relays := by simp [Mail.Situation.start]
  starts := by simp [Mail.Situation.start]
  sent := by simp [Mail.Situation.start]

/-- The counts after a step that fans a broadcast out. -/
theorem sent_after (h : net.Pushing s) {fanOut : FanOut} (hevents : outcome.events = [fanOut])
    (hlength : outcome.letters.length ≤ numReceiversEth)
    (hid : ∀ packet ∈ outcome.letters, packet.broadcastId = some fanOut.broadcastId)
    (id broadcastId : Str) :
    (s.after id outcome).sent.countP (fun packet => packet.broadcastId = some broadcastId) ≤
      numReceiversEth *
        (s.after id outcome).events.countP fun event => event.2.broadcastId = broadcastId := by
  have hnew := countP_fanOut_le hlength hid broadcastId
  have hold := h.sent broadcastId
  simp only [Mail.Situation.after_sent, Mail.Situation.after_events, Multiset.countP_add,
    Multiset.coe_countP, List.countP_append, hevents, List.map_cons, List.map_nil,
    List.countP_singleton] at hnew hold ⊢
  rw [Nat.mul_add]
  omega

theorem begin (h : net.Pushing s) (hid : id ∈ net.ids) {task : BroadcastETH}
    (hstep : (gossipNodes hash).begins (s.node id) task outcome) :
    net.Pushing ((s.after id outcome).noting id task) := by
  obtain ⟨htask, ⟨log, hstate⟩, hevents, hfans⟩ := begins_cases hstep
  have hhonest := h.honest.begin hid hstep
  have hcomma : ',' ∉ task.id := (hhonest.numeral List.mem_cons_self).1.comma
  have hfresh : ∀ other fanOut, (other, fanOut) ∈ s.events → fanOut.broadcastId ≠ task.id := by
    intro other fanOut hevent
    obtain ⟨_, origin, task', hbegun, heq⟩ := h.honest.events other fanOut hevent
    exact heq ▸ h.honest.fresh hid htask hbegun
  refine ⟨hhonest, ?_, ?_, ?_, ?_, ?_⟩
  · intro packet hpacket datagram hparse origin task' hbegun heq
    rcases Multiset.mem_add.mp hpacket with hnew | hold
    · obtain ⟨hchain, datagram', hsaid, hbroadcast, httl, _⟩ :=
        hfans.said hid (h.honest.hosts id hid) hcomma (Multiset.mem_coe.mp hnew)
      obtain rfl : datagram' = datagram := Except.ok.inj (hsaid.parse.symm.trans hparse)
      obtain ⟨rfl, rfl⟩ := Prod.mk.inj (hhonest.unique _ hbegun (id, task) List.mem_cons_self
        (heq.symm.trans hbroadcast))
      rw [hchain, httl]
      refine ⟨rfl, ?_, fun _ => ?_⟩
      · simp
      · simpa using ‹0 ≤ task'.ttl›
    · obtain ⟨sender, datagram', hsaid, origin', other, hbegun', hbroadcast⟩ :=
        h.honest.letters packet hold
      obtain rfl : datagram' = datagram := Except.ok.inj (hsaid.parse.symm.trans hparse)
      rcases List.mem_cons.mp hbegun with hnew | hbegun
      · obtain ⟨rfl, rfl⟩ := Prod.mk.inj hnew
        exact absurd (hbroadcast.symm.trans heq) (h.honest.fresh hid htask hbegun')
      · exact h.hops packet hold datagram' hparse origin task' hbegun heq
  · intro other fanOut hevent hchain
    rcases List.mem_append.mp hevent with hnew | hold
    · rw [hevents] at hnew
      obtain ⟨rfl, rfl⟩ := Prod.mk.inj (List.mem_singleton.mp hnew)
      exact absurd rfl hchain
    · obtain ⟨hseen, hhops⟩ := h.relayed other fanOut hold hchain
      refine ⟨?_, fun origin task' hbegun heq => ?_⟩
      · by_cases hother : other = id
        · subst hother
          simpa [hstate] using hseen
        · simpa [hother] using hseen
      · rcases List.mem_cons.mp hbegun with hnew | hbegun
        · obtain ⟨rfl, rfl⟩ := Prod.mk.inj hnew
          exact absurd heq (hfresh other fanOut hold)
        · exact hhops origin task' hbegun heq
  · intro other broadcastId
    simpa [hevents] using h.relays other broadcastId
  · intro broadcastId
    by_cases heq : task.id = broadcastId
    · have hnone : ∀ other fanOut, (other, fanOut) ∈ s.events →
          fanOut.broadcastId = broadcastId → fanOut.chain ≠ [] :=
            fun other fanOut hevent hbroadcast =>
        absurd (hbroadcast.trans heq.symm) (hfresh other fanOut hevent)
      simpa [hevents, heq] using hnone
    · simpa [hevents, heq] using h.starts broadcastId
  · refine h.sent_after hevents hfans.length_le (fun packet hpacket => ?_) id
    obtain ⟨_, datagram, hsaid, hbroadcast, _⟩ :=
      hfans.said hid (h.honest.hosts id hid) hcomma hpacket
    rw [hsaid.broadcastId_eq, hbroadcast]

theorem deliver (h : net.Pushing s) (hid : id ∈ net.ids) {packet : Packet}
    (hpacket : packet ∈ s.flight) (hreacts : Reacts hash (s.node id) packet outcome) :
    net.Pushing (s.after id outcome) := by
  have hhonest := h.honest.deliver hid hpacket hreacts
  have hhosts := h.honest.hosts id hid
  obtain ⟨sender, datagram, hsaid, origin, task, hbegun, hbroadcast⟩ :=
    h.honest.letters packet hpacket
  cases hreacts with
  | requests _ _ hmode => exact absurd (hmode.symm.trans hhosts.mode) (by decide)
  | replies _ _ hmode => exact absurd (hmode.symm.trans hhosts.mode) (by decide)
  | announces _ _ hmode => exact absurd (hmode.symm.trans hhosts.mode) (by decide)
  | ignores log =>
      refine ⟨hhonest, ?_, fun other fanOut hevent hchain => ?_, ?_, ?_, ?_⟩
      · simpa using h.hops
      · obtain ⟨hseen, hhops⟩ := h.relayed other fanOut hevent hchain
        refine ⟨?_, hhops⟩
        by_cases hother : other = id
        · subst hother
          simpa using hseen
        · simpa [hother] using hseen
      · simpa using h.relays
      · simpa using h.starts
      · simpa using h.sent
  | @relays msg data packets log hread _ hnew hfans =>
      obtain ⟨_, hmsg, _, httl, _, hzero⟩ := hsaid.of_read hread
      obtain ⟨hlast, hleft, hmade⟩ := h.hops packet hpacket datagram hsaid.parse origin task hbegun
        hbroadcast
      have hmsgId : msg.broadcastId = task.id := hmsg.trans hbroadcast
      have hcomma : ',' ∉ msg.broadcastId := hmsgId ▸ (h.honest.numeral hbegun).1.comma
      have hchain : packet.chain ≠ [] := by
        rintro hempty
        simp [hempty] at hlast
      have htaskttl : msg.ttl = task.ttl + 1 - packet.chain.length :=
        eq_of_stoi_toString (hleft ▸ httl)
      -- a message without hops left is not read, so at least one is left here
      have hhop : 0 ≤ task.ttl → (packet.chain.length : ℤ) ≤ task.ttl := by
        intro hnonneg
        have hle := hmade hnonneg
        have hne : task.ttl + 1 - packet.chain.length ≠ 0 := by
          intro heq
          exact hzero hhosts.mode (by rw [hleft, heq]; rfl)
        omega
      have hsame : ∀ origin' task', (origin', task') ∈ s.begun → task'.id = task.id →
          origin' = origin ∧ task' = task := fun origin' task' hbegun' heq =>
        Prod.mk.inj (h.honest.unique _ hbegun' _ hbegun heq)
      refine ⟨hhonest, ?_, ?_, ?_, ?_, ?_⟩
      · intro letter hletter datagram' hparse origin' task' hbegun' heq
        rcases Multiset.mem_add.mp hletter with hnewletter | hold
        · obtain ⟨hchain', datagram'', hsaid', hbroadcast', httl', _⟩ :=
            hfans.said hid hhosts hcomma (Multiset.mem_coe.mp hnewletter)
          obtain rfl : datagram'' = datagram' := Except.ok.inj (hsaid'.parse.symm.trans hparse)
          obtain ⟨rfl, rfl⟩ := hsame origin' task' hbegun'
            (heq.symm.trans (hbroadcast'.trans hmsgId))
          rw [hchain', httl', htaskttl, List.getLast?_cons, hlast, List.length_cons]
          refine ⟨rfl, congrArg toString ?_, fun hnonneg => ?_⟩
          · push_cast
            ring
          · have hle := hhop hnonneg
            push_cast
            omega
        · exact h.hops letter hold datagram' hparse origin' task' hbegun' heq
      · intro other fanOut hevent hne
        rcases List.mem_append.mp hevent with hnewevent | hold
        · obtain ⟨rfl, rfl⟩ := Prod.mk.inj (List.mem_singleton.mp hnewevent)
          refine ⟨by simp, fun origin' task' hbegun' heq => ?_⟩
          obtain ⟨rfl, rfl⟩ := hsame origin' task' hbegun' (heq.symm.trans hmsgId)
          exact ⟨hlast, hhop⟩
        · obtain ⟨hseen, hhops⟩ := h.relayed other fanOut hold hne
          refine ⟨?_, hhops⟩
          by_cases hother : other = id
          · subst hother
            simp [hseen]
          · simpa [hother] using hseen
      · intro other broadcastId
        by_cases heq : id = other ∧ msg.broadcastId = broadcastId
        · obtain ⟨rfl, rfl⟩ := heq
          have hnone : ∀ other fanOut, (other, fanOut) ∈ s.events → other = id →
              fanOut.broadcastId = msg.broadcastId → fanOut.chain = [] := by
            rintro other fanOut hevent rfl hbroadcast'
            by_contra hne
            exact hnew (hbroadcast' ▸ (h.relayed other fanOut hevent hne).1)
          simpa [hchain] using hnone
        · have hfalse : ¬(id = other ∧ msg.broadcastId = broadcastId ∧ packet.chain ≠ []) :=
            fun hall => heq ⟨hall.1, hall.2.1⟩
          simpa [hfalse] using h.relays other broadcastId
      · intro broadcastId
        simpa [hchain] using h.starts broadcastId
      · refine h.sent_after rfl hfans.length_le (fun letter hletter => ?_) id
        obtain ⟨_, datagram', hsaid', hbroadcast', _⟩ := hfans.said hid hhosts hcomma hletter
        rw [hsaid'.broadcastId_eq, hbroadcast']

end GossipHosts.Pushing

/-- In push mode every run keeps the hops and the counts in step. -/
theorem GossipHosts.pushing_of_reachable {admits : PeerManagerETH → Packet → Prop}
    {duplicates : Prop} {node : Str → PeerManagerETH}
    (hnode : ∀ id ∈ net.ids, net.Hosts .push id (node id))
    (hrun : Mail.Reachable (gossipNodes hash) (net.rules admits duplicates) node s) :
    net.Pushing s :=
  hrun.invariant (.start hnode) (fun _ _ h hflight => h.withFlight hflight)
    (fun _ _ _ _ h hid hstep => h.begin hid hstep)
    (fun _ _ _ _ h hid hpacket _ _ hstep =>
      h.deliver hid hpacket (receives_cases (h.honest.nonempty hpacket) hstep))

/-- At most one node starts a broadcast, and each node relays it at most once. -/
theorem GossipHosts.Pushing.countP_fanOuts_le (h : net.Pushing s) (broadcastId : Str) :
    s.events.countP (fun event => event.2.broadcastId = broadcastId) ≤ net.ids.ncard + 1 := by
  have hrelays : s.events.countP (fun event => event.2.broadcastId = broadcastId ∧
      event.2.chain ≠ []) ≤ net.finite.toFinset.card :=
    List.countP_le_card Prod.fst _
      (fun event hevent _ => net.finite.mem_toFinset.mpr (h.honest.events _ _ hevent).1)
      fun id => h.relays id broadcastId
  rw [← Set.ncard_eq_toFinset_card _ net.finite] at hrelays
  have hsplit : s.events.countP (fun event => event.2.broadcastId = broadcastId) ≤
      s.events.countP (fun event => event.2.broadcastId = broadcastId ∧ event.2.chain = []) +
        s.events.countP (fun event => event.2.broadcastId = broadcastId ∧ event.2.chain ≠ []) :=
    List.countP_le_add fun event _ heq => (em (event.2.chain = [])).imp (⟨heq, ·⟩) (⟨heq, ·⟩)
  exact hsplit.trans ((Nat.add_le_add (h.starts broadcastId) hrelays).trans (Nat.add_comm _ _).le)

end Steps

/-- Push gossip is bounded, whatever the network loses, copies and reorders: no
more datagrams than three for each node and three more carry the id of a new
broadcast, and whoever relays it has a copy that made at most `ttl` hops. -/
theorem push_gossip_bounded (hash : Str → ℕ) (net : GossipHosts) (node : Str → PeerManagerETH)
    (hnode : ∀ id ∈ net.ids, net.Hosts .push id (node id)) (s : GossipSituation)
    (hrun : Mail.Reachable (gossipNodes hash) net.unreliable node s) (origin : Str)
    (task : BroadcastETH) (hbegun : (origin, task) ∈ s.begun) (httl : 0 ≤ task.ttl) :
    s.sent.countP (fun packet => packet.broadcastId = some task.id) ≤
        numReceiversEth * (net.ids.ncard + 1) ∧
      ∀ id fanOut, (id, fanOut) ∈ s.events → fanOut.broadcastId = task.id → fanOut.chain ≠ [] →
        fanOut.chain.getLast? = some origin ∧ fanOut.chain.length ≤ task.ttl := by
  have hpushing := GossipHosts.pushing_of_reachable hnode hrun
  constructor
  · exact (hpushing.sent task.id).trans
      (Nat.mul_le_mul_left _ (hpushing.countP_fanOuts_le task.id))
  · intro id fanOut hevent hid hchain
    obtain ⟨hlast, hhops⟩ := (hpushing.relayed id fanOut hevent hchain).2 origin task hbegun hid
    exact ⟨hlast, hhops httl⟩

/-- The first node broadcasts with two hops, the second one relays. -/
def relayMoves : List GossipMove := [.begin 0 "a,b|c".toList 2 [0, 1, 2], .deliver 0 1 [0, 1, 2]]

theorem push_gossip_bounded_instance :
    ∃ s, Mail.Reachable (gossipNodes List.length) gossipDistrict.unreliable
        (newManagerETH .push) s ∧
      s.sent.countP (fun packet => packet.broadcastId = some (firstRegionId 0 ++ setw 16 0)) ≤
        numReceiversEth * (gossipDistrict.ids.ncard + 1) ∧
      ∃ fanOut, (firstRegionId 1, fanOut) ∈ s.events ∧ fanOut.chain ≠ [] ∧
        fanOut.chain.getLast? = some (firstRegionId 0) ∧ fanOut.chain.length ≤ (2 : ℤ) := by
  obtain ⟨record, hrecord, hbegun, hevent⟩ : ∃ record ∈ gossipRun List.length .push
      (fun _ _ => True) relayMoves,
      (firstRegionId 0, ⟨firstRegionId 0 ++ setw 16 0, "a,b|c".toList, 2⟩) ∈ record.begun ∧
      (firstRegionId 1, ⟨firstRegionId 0 ++ setw 16 0, [firstRegionId 0]⟩) ∈ record.events := by
    decide +kernel
  have hrun := reachable_gossipRun True hrecord
  obtain ⟨hcount, hhops⟩ := push_gossip_bounded List.length gossipDistrict (newManagerETH .push)
    (fun id _ => hosts_newManagerETH .push id) record.situation hrun (firstRegionId 0) _ hbegun
    (by decide)
  obtain ⟨hlast, hlength⟩ := hhops (firstRegionId 1) _ hevent rfl (by simp)
  exact ⟨record.situation, hrun, hcount, _, hevent, by simp, hlast, hlength⟩

end Hgfrr
