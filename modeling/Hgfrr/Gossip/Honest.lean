import Hgfrr.Gossip.Steps

/-!
# Honest gossip

In a network where every node runs the protocol, each packet comes from the
node at its source and belongs to a broadcast that some node started. The ids of
broadcasts are not used twice.
-/

namespace Hgfrr

open PeerManagerETH

/-- The situations of a gossip network. -/
abbrev GossipSituation := Mail.Situation Str PeerManagerETH BroadcastETH Packet FanOut

/-- A packet that a member sent, and what is read from it. -/
structure GossipHosts.Says (net : GossipHosts) (packet : Packet) (sender : Str)
    (datagram : DatagramETH) : Prop where
  parse : parseDatagramETH packet.text = .ok datagram
  sender_mem : sender ∈ net.ids
  senderId : datagram.senderId = sender
  source : packet.source = net.address sender

/-- What every situation of an honest network satisfies. -/
structure GossipHosts.Honest (net : GossipHosts) (mode : GossipMode) (s : GossipSituation) :
    Prop where
  hosts : ∀ id ∈ net.ids, net.Hosts mode id (s.node id)
  begun : ∀ origin task, (origin, task) ∈ s.begun → origin ∈ net.ids ∧
    ∃ n < (s.node origin).broadcastedMsgs.length, task.id = origin ++ setw 16 n
  unique : ∀ first ∈ s.begun, ∀ second ∈ s.begun, first.2.id = second.2.id → first = second
  letters : ∀ packet ∈ s.flight, ∃ sender datagram, net.Says packet sender datagram ∧
    ∃ origin task, (origin, task) ∈ s.begun ∧ datagram.broadcastId = task.id
  events : ∀ id fanOut, (id, fanOut) ∈ s.events → id ∈ net.ids ∧
    ∃ origin task, (origin, task) ∈ s.begun ∧ fanOut.broadcastId = task.id

section Packets

variable {net : GossipHosts} {mode : GossipMode} {id : Str} {pm : PeerManagerETH}
  {packet : Packet} {hash : Str → ℕ}

/-- What is read from a packet is what it was made of. -/
theorem GossipHosts.says_of_posts (hid : id ∈ net.ids) (hhosts : net.Hosts mode id pm)
    {chain : List Str} {call : SendCallETH} (hreceiver : ',' ∉ call.receiver.id)
    (hbroadcast : ',' ∉ call.msg.broadcastId) (htype : FitsInt call.msg.type)
    (h : pm.Posts chain call packet) :
    ∃ messageId, net.Says packet id ⟨id, call.receiver.id, call.msg.broadcastId, messageId,
      call.msg.type, toString call.msg.ttl, call.data⟩ := by
  obtain ⟨n, rfl⟩ := h
  have hnode : pm.node.id = id := by rw [hhosts.node]
  have hsender : ',' ∉ pm.node.id := hnode ▸ (net.numeral id hid).comma
  have hmessage : ',' ∉ pm.numbered 24 n := by
    rw [numbered, List.mem_append]
    exact not_or.mpr ⟨hsender, comma_not_mem_setw _ _⟩
  refine ⟨pm.numbered 24 n, ?_, hid, rfl, ?_⟩
  · rw [parseDatagramETH_dataString call.data hsender hreceiver hbroadcast hmessage,
      stoi_toString htype, hnode]
    rfl
  · exact (congrArg (fun node : Node => (node.ip, node.port)) hhosts.node).trans rfl

theorem GossipHosts.Says.broadcastId_eq {sender : Str} {datagram : DatagramETH}
    (h : net.Says packet sender datagram) : packet.broadcastId = some datagram.broadcastId := by
  rw [Packet.broadcastId, h.parse]

theorem GossipHosts.Says.unique {sender sender' : Str} {datagram datagram' : DatagramETH}
    (h : net.Says packet sender datagram) (h' : net.Says packet sender' datagram') :
    sender = sender' ∧ datagram = datagram' := by
  obtain rfl : datagram = datagram' := Except.ok.inj (h.parse.symm.trans h'.parse)
  exact ⟨h.senderId.symm.trans h'.senderId, rfl⟩

/-- The id that is handled is the id that is read. -/
theorem GossipHosts.Says.of_read {sender : Str} {datagram : DatagramETH}
    (h : net.Says packet sender datagram) {msg : Message} {data : Str}
    (hread : readDatagramETH mode packet.text = .ok (some (msg, data))) :
    msg.senderId = datagram.senderId ∧ msg.broadcastId = datagram.broadcastId ∧
      msg.type = datagram.type ∧ stoi datagram.ttl = .ok msg.ttl ∧ data = datagram.data ∧
      (mode = .push → datagram.ttl ≠ ['0']) := by
  rw [readDatagramETH, h.parse] at hread
  obtain ⟨datagram', hok, hread⟩ := Except.bind_eq_ok.mp hread
  obtain rfl := Except.ok.inj hok
  split at hread
  next => cases hread
  next hhops =>
    obtain ⟨ttl, httl, hread⟩ := Except.bind_eq_ok.mp hread
    simp only [pure, Except.pure, Except.ok.injEq, Option.some.injEq, Prod.mk.injEq] at hread
    obtain ⟨rfl, rfl⟩ := hread
    exact ⟨rfl, rfl, rfl, httl, rfl, fun hmode hzero => hhops ⟨hzero, hmode⟩⟩

variable {outcome : Mail.Outcome PeerManagerETH Packet FanOut}

theorem PeerManagerETH.Reacts.hosts (h : Reacts hash pm packet outcome)
    (hhosts : net.Hosts mode id pm) : net.Hosts mode id outcome.state := by
  cases h <;> exact ⟨hhosts.node, hhosts.table, hhosts.mode⟩

theorem PeerManagerETH.Reacts.own_eq (h : Reacts hash pm packet outcome) :
    outcome.state.broadcastedMsgs = pm.broadcastedMsgs := by
  cases h <;> rfl

/-- A fan-out is read as messages of its broadcast. -/
theorem PeerManagerETH.FansOut.said (hid : id ∈ net.ids) (hhosts : net.Hosts mode id pm)
    {data : Str} {ttl : ℤ} {broadcastId : Str} {chain : List Str} {packets : List Packet}
    (hbroadcast : ',' ∉ broadcastId) (h : pm.FansOut hash data ttl broadcastId chain packets)
    (hmem : packet ∈ packets) :
    packet.chain = id :: chain ∧ ∃ datagram, net.Says packet id datagram ∧
      datagram.broadcastId = broadcastId ∧
      match mode with
      | .push => datagram.ttl = toString ttl ∧ datagram.data = data
      | .pull => datagram.type = 1 ∧ datagram.data = toString (hash data) := by
  obtain ⟨receiver, hreceiver, hposts⟩ := h.posts packet hmem
  have hchain : packet.chain = id :: chain := by
    obtain ⟨n, rfl⟩ := hposts
    rw [hhosts.node]
  have hcomma : ',' ∉ receiver.id :=
    (net.numeral _ (net.peers_mem id hid receiver (hhosts.table ▸ hreceiver))).comma
  refine ⟨hchain, ?_⟩
  cases mode with
  | push =>
      have hcall : pm.broadcastTo hash data ttl broadcastId receiver = ⟨receiver,
          ((Message.mkEth broadcastId [] pm.node.id []).setTTL ttl).setReceiverId receiver.id,
          data⟩ := by
        simp only [broadcastTo, hhosts.mode]
      rw [hcall] at hposts
      obtain ⟨messageId, hsaid⟩ :=
        GossipHosts.says_of_posts hid hhosts hcomma hbroadcast
          (show FitsInt 0 by decide) hposts
      exact ⟨_, hsaid, rfl, rfl, rfl⟩
  | pull =>
      have hcall : pm.broadcastTo hash data ttl broadcastId receiver =
          pm.sendInv receiver (toString (hash data)) broadcastId := by
        simp only [broadcastTo, hhosts.mode]
      rw [hcall] at hposts
      obtain ⟨messageId, hsaid⟩ :=
        GossipHosts.says_of_posts hid hhosts hcomma hbroadcast
          (show FitsInt 1 by decide) hposts
      exact ⟨_, hsaid, rfl, rfl, rfl⟩

/-- Whatever a node does about a packet belongs to the broadcast of the packet. -/
theorem PeerManagerETH.Reacts.said (hid : id ∈ net.ids) (hhosts : net.Hosts mode id pm)
    {sender : Str} {datagram : DatagramETH} (hsaid : net.Says packet sender datagram)
    (hcomma : ',' ∉ datagram.broadcastId) (h : Reacts hash pm packet outcome) :
    (∀ letter ∈ outcome.letters, ∃ datagram', net.Says letter id datagram' ∧
      datagram'.broadcastId = datagram.broadcastId) ∧
    ∀ fanOut ∈ outcome.events,
      fanOut.broadcastId = datagram.broadcastId ∧ fanOut.chain = packet.chain := by
  have hsender : ',' ∉ datagram.senderId := by
    rw [hsaid.senderId]
    exact (net.numeral sender hsaid.sender_mem).comma
  have hreply : ∀ {type : ℤ} {msg : Message} {data text : Str} {reply : Packet}, FitsInt type →
      readDatagramETH pm.mode packet.text = .ok (some (msg, data)) →
      pm.Posts packet.chain (pm.sendPull type ⟨msg.senderId, packet.source.1, packet.source.2⟩ text
        msg.broadcastId) reply →
      ∃ datagram', net.Says reply id datagram' ∧
        datagram'.broadcastId = datagram.broadcastId := by
    intro type msg data text reply htype hread hposts
    obtain ⟨hid', hbroadcast, _⟩ := hsaid.of_read hread
    obtain ⟨messageId, hsaid'⟩ := GossipHosts.says_of_posts hid hhosts
      (show ',' ∉ msg.senderId from hid' ▸ hsender)
      (show ',' ∉ msg.broadcastId from hbroadcast ▸ hcomma) htype hposts
    exact ⟨_, hsaid', hbroadcast⟩
  have hfan : ∀ {msg : Message} {data data' : Str} {ttl : ℤ} {packets : List Packet},
      readDatagramETH pm.mode packet.text = .ok (some (msg, data)) →
      pm.FansOut hash data' ttl msg.broadcastId packet.chain packets →
      (∀ letter ∈ packets, ∃ datagram', net.Says letter id datagram' ∧
        datagram'.broadcastId = datagram.broadcastId) ∧
      msg.broadcastId = datagram.broadcastId := by
    intro msg data data' ttl packets hread hfans
    obtain ⟨_, hbroadcast, _⟩ := hsaid.of_read hread
    refine ⟨fun letter hletter => ?_, hbroadcast⟩
    obtain ⟨_, datagram', hsaid', heq, _⟩ := hfans.said hid hhosts (hbroadcast ▸ hcomma) hletter
    exact ⟨datagram', hsaid', heq.trans hbroadcast⟩
  cases h with
  | ignores log => simp
  | requests log hread _ _ _ hposts => simpa using hreply (by decide) hread hposts
  | replies log hread _ _ _ hposts => simpa using hreply (by decide) hread hposts
  | announces log hread _ _ hfans => simpa using hfan hread hfans
  | relays log hread _ _ hfans => simpa using hfan hread hfans

end Packets

section Invariant

variable {net : GossipHosts} {mode : GossipMode} {s : GossipSituation} {hash : Str → ℕ}

theorem GossipHosts.honest_start {node : Str → PeerManagerETH}
    (hnode : ∀ id ∈ net.ids, net.Hosts mode id (node id)) :
    net.Honest mode (Mail.Situation.start node) where
  hosts := hnode
  begun := by simp [Mail.Situation.start]
  unique := by simp [Mail.Situation.start]
  letters := by simp [Mail.Situation.start]
  events := by simp [Mail.Situation.start]

namespace GossipHosts.Honest

theorem withFlight (h : net.Honest mode s) {flight : Multiset Packet}
    (hflight : ∀ packet ∈ flight, packet ∈ s.flight) : net.Honest mode (s.withFlight flight) where
  hosts := h.hosts
  begun := h.begun
  unique := h.unique
  letters packet hpacket := h.letters packet (hflight packet hpacket)
  events := h.events

/-- The id of a broadcast is a numeral. -/
theorem numeral (h : net.Honest mode s) {origin : Str} {task : BroadcastETH}
    (hbegun : (origin, task) ∈ s.begun) : IsNumeral task.id ∧ task.id ≠ [] := by
  obtain ⟨horigin, n, _, hid⟩ := h.begun origin task hbegun
  rw [hid]
  refine ⟨List.forall_mem_append.mpr ⟨net.numeral origin horigin, isNumeral_setw 16 n⟩, ?_⟩
  refine List.append_ne_nil_of_left_ne_nil (List.ne_nil_of_length_pos ?_) _
  rw [net.length_id origin horigin]
  omega

/-- A broadcast that begins gets an id that is not in use. -/
theorem fresh (h : net.Honest mode s) {id : Str} (hid : id ∈ net.ids) {task : BroadcastETH}
    (htask : task.id = (s.node id).numbered 16 (s.node id).broadcastedMsgs.length)
    {origin : Str} {other : BroadcastETH} (hbegun : (origin, other) ∈ s.begun) :
    other.id ≠ task.id := by
  intro heq
  obtain ⟨horigin, n, hn, hother⟩ := h.begun origin other hbegun
  have hnode : (s.node id).node.id = id := by rw [(h.hosts id hid).node]
  rw [hother, htask, numbered, hnode] at heq
  obtain ⟨rfl, htail⟩ := List.append_inj heq
    ((net.length_id origin horigin).trans (net.length_id id hid).symm)
  exact hn.ne (Decimal.padded_injective 16 htail)

theorem nonempty (h : net.Honest mode s) {packet : Packet} (hpacket : packet ∈ s.flight) :
    packet.broadcastId ≠ some [] := by
  obtain ⟨sender, datagram, hsaid, origin, task, hbegun, hbroadcast⟩ := h.letters packet hpacket
  rw [hsaid.broadcastId_eq, hbroadcast]
  simpa using (h.numeral hbegun).2

/-- A node that starts a broadcast keeps the network honest. -/
theorem begin (h : net.Honest mode s) {id : Str} (hid : id ∈ net.ids) {task : BroadcastETH}
    {outcome : Mail.Outcome PeerManagerETH Packet FanOut}
    (hstep : (gossipNodes hash).begins (s.node id) task outcome) :
    net.Honest mode ((s.after id outcome).noting id task) := by
  obtain ⟨htask, ⟨log, hstate⟩, hevents, hfans⟩ := begins_cases hstep
  have hhosts := h.hosts id hid
  have hnode : (s.node id).node.id = id := by rw [hhosts.node]
  have hid' : task.id = id ++ setw 16 (s.node id).broadcastedMsgs.length :=
    htask.trans (by rw [numbered, hnode])
  have hcomma : ',' ∉ task.id := by
    rw [hid', List.mem_append]
    exact not_or.mpr ⟨(net.numeral id hid).comma, comma_not_mem_setw _ _⟩
  constructor
  · intro other hother
    by_cases heq : other = id
    · subst heq
      simp only [Mail.Situation.noting_node, Mail.Situation.after_node, Function.update_self,
        hstate]
      exact ⟨hhosts.node, hhosts.table, hhosts.mode⟩
    · simpa [heq] using h.hosts other hother
  · intro origin other hbegun
    rcases List.mem_cons.mp hbegun with heq | hbegun
    · obtain ⟨rfl, rfl⟩ := Prod.mk.inj heq
      exact ⟨hid, _, by simp [hstate], hid'⟩
    · obtain ⟨horigin, n, hn, hother⟩ := h.begun origin other hbegun
      refine ⟨horigin, n, ?_, hother⟩
      by_cases heq : origin = id
      · subst heq
        simp only [Mail.Situation.noting_node, Mail.Situation.after_node, Function.update_self,
          hstate, List.length_append]
        omega
      · simpa [heq] using hn
  · intro first hfirst second hsecond heq
    rcases List.mem_cons.mp hfirst with rfl | hfirst <;>
      rcases List.mem_cons.mp hsecond with rfl | hsecond
    · rfl
    · exact absurd heq.symm (h.fresh hid htask hsecond)
    · exact absurd heq (h.fresh hid htask hfirst)
    · exact h.unique first hfirst second hsecond heq
  · intro packet hpacket
    rcases Multiset.mem_add.mp hpacket with hnew | hold
    · obtain ⟨_, datagram, hsaid, hbroadcast, _⟩ := hfans.said hid hhosts hcomma
        (Multiset.mem_coe.mp hnew)
      exact ⟨id, datagram, hsaid, id, task, List.mem_cons_self, hbroadcast⟩
    · obtain ⟨sender, datagram, hsaid, origin, other, hbegun, hbroadcast⟩ := h.letters packet hold
      exact ⟨sender, datagram, hsaid, origin, other, List.mem_cons_of_mem _ hbegun, hbroadcast⟩
  · intro other fanOut hevent
    rcases List.mem_append.mp hevent with hnew | hold
    · rw [hevents] at hnew
      obtain ⟨rfl, rfl⟩ := Prod.mk.inj (List.mem_singleton.mp hnew)
      exact ⟨hid, other, task, List.mem_cons_self, rfl⟩
    · obtain ⟨hother, origin, task', hbegun, hbroadcast⟩ := h.events other fanOut hold
      exact ⟨hother, origin, task', List.mem_cons_of_mem _ hbegun, hbroadcast⟩

/-- A node that takes in a packet keeps the network honest. -/
theorem deliver (h : net.Honest mode s) {id : Str} (hid : id ∈ net.ids) {packet : Packet}
    (hpacket : packet ∈ s.flight) {outcome : Mail.Outcome PeerManagerETH Packet FanOut}
    (hreacts : Reacts hash (s.node id) packet outcome) : net.Honest mode (s.after id outcome) := by
  obtain ⟨sender, datagram, hsaid, origin, task, hbegun, hbroadcast⟩ := h.letters packet hpacket
  have hhosts := h.hosts id hid
  have hcomma : ',' ∉ datagram.broadcastId := hbroadcast ▸ (h.numeral hbegun).1.comma
  obtain ⟨hletters, hevents⟩ := hreacts.said hid hhosts hsaid hcomma
  constructor
  · intro other hother
    by_cases heq : other = id
    · subst heq
      simpa using hreacts.hosts hhosts
    · simpa [heq] using h.hosts other hother
  · intro origin other hbegun
    obtain ⟨horigin, n, hn, hother⟩ := h.begun origin other hbegun
    refine ⟨horigin, n, ?_, hother⟩
    by_cases heq : origin = id
    · subst heq
      simpa [hreacts.own_eq] using hn
    · simpa [heq] using hn
  · exact h.unique
  · intro other hother
    rcases Multiset.mem_add.mp hother with hnew | hold
    · obtain ⟨datagram', hsaid', hbroadcast'⟩ := hletters other (Multiset.mem_coe.mp hnew)
      exact ⟨id, datagram', hsaid', origin, task, hbegun, hbroadcast'.trans hbroadcast⟩
    · exact h.letters other hold
  · intro other fanOut hevent
    rcases List.mem_append.mp hevent with hnew | hold
    · obtain ⟨fanOut', hmem, heq⟩ := List.mem_map.mp hnew
      obtain ⟨rfl, rfl⟩ := Prod.mk.inj heq
      exact ⟨hid, origin, task, hbegun, (hevents fanOut' hmem).1.trans hbroadcast⟩
    · exact h.events other fanOut hold

end GossipHosts.Honest

end Invariant

end Hgfrr
