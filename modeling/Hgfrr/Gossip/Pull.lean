import Hgfrr.Foundation.AssocMap
import Hgfrr.Gossip.Honest

/-!
# Pull gossip can always be answered

Whoever offers data has it, and keeps it. Invitations, requests and data under
one broadcast id all go back to the hash that the broadcast was announced with.
-/

namespace Hgfrr

open PeerManagerETH

/-- A node has some data with a hash. -/
def PeerManagerETH.Holds (pm : PeerManagerETH) (dataHash : Str) : Prop :=
  (pm.dataMap.lookup dataHash).isSome

/-- What a message of the pull protocol stands for: the sender of an invitation
and the receiver of a request hold the data, and data comes with its hash. -/
inductive GossipHosts.Pulls (net : GossipHosts) (hash : Str → ℕ) (s : GossipSituation)
    (dataHash : Str) (packet : Packet) (sender : Str) (datagram : DatagramETH) : Prop
  | invitation (htype : datagram.type = 1) (hdata : datagram.data = dataHash)
      (hholds : (s.node sender).Holds dataHash)
  | request {holder} (htype : datagram.type = 3) (hdata : datagram.data = dataHash)
      (hholder : holder ∈ net.ids) (htarget : net.address holder = packet.target)
      (hholds : (s.node holder).Holds dataHash)
  | data {content} (htype : datagram.type = 2) (hdata : datagram.data = dataHash ++ '|' :: content)
      (hhash : dataHash = toString (hash content))

/-- What every situation of a network in pull mode satisfies. -/
structure GossipHosts.Pulling (net : GossipHosts) (hash : Str → ℕ) (s : GossipSituation) :
    Prop where
  honest : net.Honest .pull s
  maps : ∀ id ∈ net.ids, ∀ entry ∈ (s.node id).dataMap, entry.1 = toString (hash entry.2)
  letters : ∀ packet ∈ s.flight, ∀ sender datagram, net.Says packet sender datagram →
    ∀ origin task, (origin, task) ∈ s.begun → datagram.broadcastId = task.id →
      net.Pulls hash s (toString (hash task.data)) packet sender datagram
  events : ∀ id fanOut, (id, fanOut) ∈ s.events → ∀ origin task, (origin, task) ∈ s.begun →
    fanOut.broadcastId = task.id → (s.node id).Holds (toString (hash task.data))

section Maps

variable {map : List (Str × Str)} {entry : Str × Str} {dataHash content : Str}

theorem lookup_isSome_mapInsert :
    ((mapInsert entry map).lookup dataHash).isSome ↔
      dataHash = entry.1 ∨ (map.lookup dataHash).isSome := by
  unfold mapInsert
  split
  next hsome =>
    refine ⟨Or.inr, fun h => h.elim (fun heq => heq ▸ hsome) id⟩
  next =>
    rw [List.lookup_append, Option.isSome_or, Bool.or_eq_true, or_comm]
    refine or_congr ?_ Iff.rfl
    by_cases heq : dataHash = entry.1
    · simp [List.lookup, heq]
    · simp [List.lookup, beq_eq_false_iff_ne.mpr heq, heq]

theorem mem_mapInsert {other : Str × Str} (h : other ∈ mapInsert entry map) :
    other = entry ∨ other ∈ map := by
  unfold mapInsert at h
  split at h
  next => exact Or.inr h
  next => simpa [or_comm] using h

theorem bar_not_mem_toString (n : ℕ) : '|' ∉ toString n := by
  intro hmem
  rcases Decimal.mem_ofInt hmem with heq | hdigit
  · exact absurd heq (by decide)
  · exact absurd hdigit (by decide)

theorem beforeBar_of_not_mem (h : '|' ∉ dataHash) : beforeBar dataHash = dataHash := by
  have hnone : find ([] ++ dataHash) '|' ([] : Str).length = none := find_none h
  rw [List.nil_append, List.length_nil] at hnone
  rw [beforeBar, hnone, Option.elim_none]

theorem find_bar (h : '|' ∉ dataHash) (content : Str) :
    find (dataHash ++ '|' :: content) '|' 0 = some dataHash.length := by
  have hfind : find ([] ++ (dataHash ++ '|' :: content)) '|' ([] : Str).length =
      some (([] : Str).length + dataHash.length) := find_append [] content h
  simpa using hfind

theorem beforeBar_append (h : '|' ∉ dataHash) (content : Str) :
    beforeBar (dataHash ++ '|' :: content) = dataHash := by
  rw [beforeBar, find_bar h, Option.elim_some, List.take_left]

theorem afterBar_append (h : '|' ∉ dataHash) (content : Str) :
    afterBar (dataHash ++ '|' :: content) = content := by
  rw [afterBar, find_bar h, afterPos, ← List.drop_drop, List.drop_left]
  rfl

end Maps

section Steps

variable {net : GossipHosts} {hash : Str → ℕ} {s : GossipSituation} {id : Str} {packet : Packet}
  {outcome : Mail.Outcome PeerManagerETH Packet FanOut}

/-- A node keeps what it has. -/
theorem PeerManagerETH.Reacts.holds {pm : PeerManagerETH} {dataHash : Str}
    (h : Reacts hash pm packet outcome) (hholds : pm.Holds dataHash) :
    outcome.state.Holds dataHash := by
  cases h with
  | announces => exact lookup_isSome_mapInsert.mpr (Or.inr hholds)
  | ignores => exact hholds
  | requests => exact hholds
  | replies => exact hholds
  | relays => exact hholds

theorem holds_update {dataHash other : Str} {state : PeerManagerETH}
    (hkeeps : (s.node id).Holds dataHash → state.Holds dataHash)
    (h : (s.node other).Holds dataHash) :
    (Function.update s.node id state other).Holds dataHash := by
  by_cases heq : other = id
  · subst heq
    simpa using hkeeps h
  · simpa [heq] using h

theorem GossipHosts.Pulls.mono {next : GossipSituation} {dataHash sender : Str}
    {datagram : DatagramETH} (h : net.Pulls hash s dataHash packet sender datagram)
    (hkeeps : ∀ other, (s.node other).Holds dataHash → (next.node other).Holds dataHash) :
    net.Pulls hash next dataHash packet sender datagram := by
  cases h with
  | invitation htype hdata hholds => exact .invitation htype hdata (hkeeps _ hholds)
  | request htype hdata hholder htarget hholds =>
      exact .request htype hdata hholder htarget (hkeeps _ hholds)
  | data htype hdata hhash => exact .data htype hdata hhash

/-- What a node makes of a message that it can rely on: its map stays sound, its
packets can be relied on again, and it holds the data of what it fans out. -/
theorem PeerManagerETH.Reacts.pulls (hhonest : net.Honest .pull s) (hid : id ∈ net.ids)
    (hmap : ∀ entry ∈ (s.node id).dataMap, entry.1 = toString (hash entry.2))
    {sender : Str} {datagram : DatagramETH} (hsaid : net.Says packet sender datagram)
    (hcomma : ',' ∉ datagram.broadcastId) {content : Str}
    (hpulls : net.Pulls hash s (toString (hash content)) packet sender datagram)
    (h : Reacts hash (s.node id) packet outcome) :
    (∀ entry ∈ outcome.state.dataMap, entry.1 = toString (hash entry.2)) ∧
      (∀ letter ∈ outcome.letters, ∀ sender' datagram', net.Says letter sender' datagram' →
        net.Pulls hash (s.after id outcome) (toString (hash content)) letter sender' datagram') ∧
      (outcome.events ≠ [] → outcome.state.Holds (toString (hash content))) := by
  have hhosts := hhonest.hosts id hid
  have hbar := bar_not_mem_toString (hash content)
  have hsender : ',' ∉ datagram.senderId := by
    rw [hsaid.senderId]
    exact (net.numeral sender hsaid.sender_mem).comma
  have hkeeps : ∀ other, (s.node other).Holds (toString (hash content)) →
      ((s.after id outcome).node other).Holds (toString (hash content)) :=
    fun other => holds_update h.holds
  cases h with
  | ignores log => exact ⟨hmap, by simp, by simp⟩
  | relays _ _ hmode => exact absurd (hmode.symm.trans hhosts.mode) (by decide)
  | @requests msg data reply log hread hmode htype hlacks hposts =>
      obtain ⟨hsender', hbroadcast, htype', _, hdata', _⟩ := hsaid.of_read hread
      refine ⟨hmap, fun letter hletter sender' datagram' hsaid' => ?_, by simp⟩
      obtain rfl := List.mem_singleton.mp hletter
      obtain ⟨messageId, hsaid''⟩ := GossipHosts.says_of_posts hid hhosts
        (show ',' ∉ msg.senderId from hsender' ▸ hsender)
        (show ',' ∉ msg.broadcastId from hbroadcast ▸ hcomma) (show FitsInt 3 by decide) hposts
      obtain ⟨rfl, rfl⟩ := hsaid'.unique hsaid''
      have htarget : letter.target = packet.source := by
        obtain ⟨n, rfl⟩ := hposts
        rfl
      cases hpulls with
      | invitation _ hdata hholds =>
          exact .request rfl (hdata'.trans hdata) hsaid.sender_mem
            (hsaid.source.symm.trans htarget.symm) (hkeeps sender hholds)
      | request htype'' => rw [htype', htype''] at htype; exact absurd htype (by decide)
      | data htype'' => rw [htype', htype''] at htype; exact absurd htype (by decide)
  | @replies msg data reply realData log hread hmode htype hholds hposts =>
      obtain ⟨hsender', hbroadcast, htype', _, hdata', _⟩ := hsaid.of_read hread
      refine ⟨hmap, fun letter hletter sender' datagram' hsaid' => ?_, by simp⟩
      obtain rfl := List.mem_singleton.mp hletter
      obtain ⟨messageId, hsaid''⟩ := GossipHosts.says_of_posts hid hhosts
        (show ',' ∉ msg.senderId from hsender' ▸ hsender)
        (show ',' ∉ msg.broadcastId from hbroadcast ▸ hcomma) (show FitsInt 2 by decide) hposts
      obtain ⟨rfl, rfl⟩ := hsaid'.unique hsaid''
      cases hpulls with
      | request _ hdata =>
          have hhash : data = toString (hash content) := hdata'.trans hdata
          rw [hhash, beforeBar_of_not_mem hbar] at hholds
          have hreal : toString (hash content) = toString (hash realData) :=
            hmap _ (AssocMap.mem_of_lookup hholds)
          exact .data rfl (by simp [PeerManagerETH.sendData, sendPull, hhash]) hreal
      | invitation htype'' => rw [htype', htype''] at htype; exact absurd htype (by decide)
      | data htype'' => rw [htype', htype''] at htype; exact absurd htype (by decide)
  | @announces msg data packets log hread hmode htype hfans =>
      obtain ⟨_, hbroadcast, htype', _, hdata', _⟩ := hsaid.of_read hread
      cases hpulls with
      | @data content' _ hdata hhash =>
          have hdata : data = toString (hash content) ++ '|' :: content' := hdata'.trans hdata
          rw [hdata, afterBar_append hbar] at hfans
          have hholds : ((s.after id
              ⟨{ s.node id with
                  msgTable := log
                  dataMap := mapInsert (beforeBar data, afterBar data) (s.node id).dataMap },
                    packets,
                [⟨msg.broadcastId, packet.chain⟩]⟩).node id).Holds (toString (hash content)) := by
            rw [Mail.Situation.after_node, Function.update_self, hdata, beforeBar_append hbar]
            exact lookup_isSome_mapInsert.mpr (Or.inl rfl)
          refine ⟨fun entry hentry => ?_, fun letter hletter sender' datagram' hsaid' => ?_,
            fun _ => by simpa using hholds⟩
          · rcases mem_mapInsert hentry with rfl | hentry
            · rw [hdata, beforeBar_append hbar, afterBar_append hbar]
              exact hhash
            · exact hmap entry hentry
          · obtain ⟨_, datagram'', hsaid'', _, htype'', hdata''⟩ :=
              hfans.said hid hhosts (hbroadcast ▸ hcomma) hletter
            obtain ⟨rfl, rfl⟩ := hsaid'.unique hsaid''
            exact .invitation htype'' (hdata''.trans hhash.symm) hholds
      | invitation htype'' => rw [htype', htype''] at htype; exact absurd htype (by decide)
      | request htype'' => rw [htype', htype''] at htype; exact absurd htype (by decide)

namespace GossipHosts.Pulling

theorem start {node : Str → PeerManagerETH}
    (hnode : ∀ id ∈ net.ids, net.Hosts .pull id (node id))
    (hmaps : ∀ id ∈ net.ids, ∀ entry ∈ (node id).dataMap, entry.1 = toString (hash entry.2)) :
    net.Pulling hash (Mail.Situation.start node) where
  honest := net.honest_start hnode
  maps := hmaps
  letters := by simp [Mail.Situation.start]
  events := by simp [Mail.Situation.start]

theorem withFlight (h : net.Pulling hash s) {flight : Multiset Packet}
    (hflight : ∀ packet ∈ flight, packet ∈ s.flight) :
    net.Pulling hash (s.withFlight flight) where
  honest := h.honest.withFlight hflight
  maps := h.maps
  letters packet hpacket sender datagram hsaid origin task hbegun heq :=
    (h.letters packet (hflight packet hpacket) sender datagram hsaid origin task hbegun heq).mono
      fun _ => id
  events := h.events

theorem begin (h : net.Pulling hash s) (hid : id ∈ net.ids) {task : BroadcastETH}
    (hstep : (gossipNodes hash).begins (s.node id) task outcome) :
    net.Pulling hash ((s.after id outcome).noting id task) := by
  obtain ⟨htask, ⟨log, hstate⟩, hevents, hfans⟩ := begins_cases hstep
  have hhonest := h.honest.begin hid hstep
  have hcomma : ',' ∉ task.id := (hhonest.numeral List.mem_cons_self).1.comma
  have hkeeps : ∀ dataHash other, (s.node other).Holds dataHash →
      (((s.after id outcome).noting id task).node other).Holds dataHash := by
    intro dataHash other
    refine holds_update fun hholds => ?_
    rw [hstate]
    exact lookup_isSome_mapInsert.mpr (Or.inr hholds)
  have hnew : (((s.after id outcome).noting id task).node id).Holds
      (toString (hash task.data)) := by
    rw [Mail.Situation.noting_node, Mail.Situation.after_node, Function.update_self, hstate]
    exact lookup_isSome_mapInsert.mpr (Or.inl rfl)
  refine ⟨hhonest, ?_, ?_, ?_⟩
  · intro other hother entry hentry
    by_cases heq : other = id
    · subst heq
      simp only [Mail.Situation.noting_node, Mail.Situation.after_node, Function.update_self,
        hstate] at hentry
      rcases mem_mapInsert hentry with rfl | hentry
      · rfl
      · exact h.maps other hother entry hentry
    · exact h.maps other hother entry (by simpa [heq] using hentry)
  · intro packet hpacket sender datagram hsaid origin task' hbegun heq
    rcases Multiset.mem_add.mp hpacket with hfan | hold
    · obtain ⟨_, datagram', hsaid', hbroadcast, htype, hdata⟩ :=
        hfans.said hid (h.honest.hosts id hid) hcomma (Multiset.mem_coe.mp hfan)
      obtain ⟨rfl, rfl⟩ := hsaid.unique hsaid'
      obtain ⟨rfl, rfl⟩ := Prod.mk.inj (hhonest.unique _ hbegun (sender, task) List.mem_cons_self
        (heq.symm.trans hbroadcast))
      exact .invitation htype hdata hnew
    · rcases List.mem_cons.mp hbegun with hfirst | hbegun
      · obtain ⟨rfl, rfl⟩ := Prod.mk.inj hfirst
        obtain ⟨sender', datagram', hsaid', origin', other, hbegun', hbroadcast⟩ :=
          h.honest.letters packet hold
        obtain ⟨rfl, rfl⟩ := hsaid.unique hsaid'
        exact absurd (hbroadcast.symm.trans heq) (h.honest.fresh hid htask hbegun')
      · exact (h.letters packet hold sender datagram hsaid origin task' hbegun heq).mono
          (hkeeps _)
  · intro other fanOut hevent origin task' hbegun heq
    rcases List.mem_append.mp hevent with hfirst | hold
    · rw [hevents] at hfirst
      obtain ⟨rfl, rfl⟩ := Prod.mk.inj (List.mem_singleton.mp hfirst)
      obtain ⟨rfl, rfl⟩ := Prod.mk.inj (hhonest.unique _ hbegun (other, task) List.mem_cons_self
        heq.symm)
      exact hnew
    · rcases List.mem_cons.mp hbegun with hfirst | hbegun
      · obtain ⟨rfl, rfl⟩ := Prod.mk.inj hfirst
        obtain ⟨_, origin', task'', hbegun', hbroadcast⟩ := h.honest.events other fanOut hold
        exact absurd (hbroadcast.symm.trans heq) (h.honest.fresh hid htask hbegun')
      · exact hkeeps _ other (h.events other fanOut hold origin task' hbegun heq)

theorem deliver (h : net.Pulling hash s) (hid : id ∈ net.ids) (hpacket : packet ∈ s.flight)
    (hreacts : Reacts hash (s.node id) packet outcome) : net.Pulling hash (s.after id outcome) := by
  have hhonest := h.honest.deliver hid hpacket hreacts
  have hhosts := h.honest.hosts id hid
  obtain ⟨sender, datagram, hsaid, origin, task, hbegun, hbroadcast⟩ :=
    h.honest.letters packet hpacket
  have hcomma : ',' ∉ datagram.broadcastId := hbroadcast ▸ (h.honest.numeral hbegun).1.comma
  obtain ⟨hmap, hletters, hevents⟩ := hreacts.pulls h.honest hid (h.maps id hid) hsaid hcomma
    (h.letters packet hpacket sender datagram hsaid origin task hbegun hbroadcast)
  obtain ⟨hsaid', hfanOut⟩ := hreacts.said hid hhosts hsaid hcomma
  have hsame : ∀ origin' task', (origin', task') ∈ s.begun →
      datagram.broadcastId = task'.id → task' = task := fun origin' task' hbegun' heq =>
    congrArg Prod.snd (h.honest.unique _ hbegun' _ hbegun (heq.symm.trans hbroadcast))
  refine ⟨hhonest, ?_, ?_, ?_⟩
  · intro other hother entry hentry
    by_cases heq : other = id
    · subst heq
      exact hmap entry (by simpa using hentry)
    · exact h.maps other hother entry (by simpa [heq] using hentry)
  · intro letter hletter sender' datagram' hsaysLetter origin' task' hbegun' heq
    rcases Multiset.mem_add.mp hletter with hnew | hold
    · obtain ⟨datagram'', hsaysNew, hbroadcast'⟩ := hsaid' letter (Multiset.mem_coe.mp hnew)
      obtain ⟨rfl, rfl⟩ := hsaysLetter.unique hsaysNew
      obtain rfl := hsame origin' task' hbegun' (hbroadcast'.symm.trans heq)
      exact hletters letter (Multiset.mem_coe.mp hnew) sender' datagram' hsaysLetter
    · exact (h.letters letter hold sender' datagram' hsaysLetter origin' task' hbegun' heq).mono
        fun other => holds_update hreacts.holds
  · intro other fanOut hevent origin' task' hbegun' heq
    rcases List.mem_append.mp hevent with hnew | hold
    · obtain ⟨fanOut', hmem, hpair⟩ := List.mem_map.mp hnew
      obtain ⟨rfl, rfl⟩ := Prod.mk.inj hpair
      obtain rfl := hsame origin' task' hbegun' ((hfanOut fanOut' hmem).1.symm.trans heq)
      simpa using hevents (List.ne_nil_of_mem hmem)
    · exact holds_update hreacts.holds (h.events other fanOut hold origin' task' hbegun' heq)

end GossipHosts.Pulling

/-- In pull mode every run keeps offers and data together. -/
theorem GossipHosts.pulling_of_reachable {admits : PeerManagerETH → Packet → Prop}
    {duplicates : Prop} {node : Str → PeerManagerETH}
    (hnode : ∀ id ∈ net.ids, net.Hosts .pull id (node id))
    (hmaps : ∀ id ∈ net.ids, ∀ entry ∈ (node id).dataMap, entry.1 = toString (hash entry.2))
    (hrun : Mail.Reachable (gossipNodes hash) (net.rules admits duplicates) node s) :
    net.Pulling hash s :=
  hrun.invariant (.start hnode hmaps) (fun _ _ h hflight => h.withFlight hflight)
    (fun _ _ _ _ h hid hstep => h.begin hid hstep)
    (fun _ _ _ _ h hid hpacket _ _ hstep =>
      h.deliver hid hpacket (receives_cases (h.honest.nonempty hpacket) hstep))

end Steps

section Requests

theorem stoi_ne_undefinedBehaviour (text : Str) : stoi text ≠ .error .undefinedBehaviour := by
  unfold stoi
  split
  · simp
  · split <;> simp

/-- A node that holds the data it is asked for answers without dereferencing
the end of its map. -/
theorem receive_request_failure {pm : PeerManagerETH} {text : Str} {datagram : DatagramETH}
    (hparse : parseDatagramETH text = .ok datagram) (hmode : pm.mode = .pull)
    (htype : datagram.type = 3) (hself : pm.node.id.length = 32)
    (hholds : (pm.dataMap.lookup (beforeBar datagram.data)).isSome)
    (hash : Str → ℕ) (now : ℤ) (draws : List ℕ) (ip : Str) (port : ℕ) :
    (pm.receive hash now draws ip port text).2.failure ≠ some .undefinedBehaviour := by
  obtain ⟨realData, hreal⟩ := Option.isSome_iff_exists.mp hholds
  have hnot : ¬(datagram.ttl = ['0'] ∧ GossipMode.pull = GossipMode.push) := by simp
  cases httl : stoi datagram.ttl with
  | error fault =>
      have hread : readDatagramETH .pull text = .error fault := by
        simp only [readDatagramETH, hparse, bind, Except.bind, if_neg hnot, httl]
      rw [receive, hmode, hread]
      rintro hfault
      obtain rfl : fault = .undefinedBehaviour := Option.some.inj hfault
      exact stoi_ne_undefinedBehaviour _ httl
  | ok ttl =>
      have hread : readDatagramETH .pull text = .ok (some (((Message.mkEth datagram.broadcastId
          datagram.messageId datagram.senderId datagram.receiverId).setTTL ttl).setType
          datagram.type, datagram.data)) := by
        simp only [readDatagramETH, hparse, bind, Except.bind, if_neg hnot, httl]
        rfl
      obtain ⟨delay, hdelay⟩ := hopDelay_ok datagram.senderId (by omega : 23 ≤ pm.node.id.length)
      simp only [receive, hmode, hread, onReceive, Message.setType_senderId,
        Message.setTTL_senderId,
        Message.mkEth_senderId, hdelay, onReceivePull, Message.setType_type, htype, hreal]
      simp

end Requests

/-- Requests of the pull protocol can always be answered, whatever is broadcast
and whatever the network loses, copies and reorders. Every map entry is stored
under its hash. Whoever sent an invitation, or is sent a request, holds the data.
Data is split again into the hash and the content, so that no request makes a node
dereference the end of its map. -/
theorem pull_requests_answered (hash : Str → ℕ) (net : GossipHosts) (node : Str → PeerManagerETH)
    (hnode : ∀ id ∈ net.ids, net.Hosts .pull id (node id))
    (hmaps : ∀ id ∈ net.ids, ∀ entry ∈ (node id).dataMap, entry.1 = toString (hash entry.2))
    (s : GossipSituation) (hrun : Mail.Reachable (gossipNodes hash) net.unreliable node s) :
    (∀ id ∈ net.ids, ∀ entry ∈ (s.node id).dataMap, entry.1 = toString (hash entry.2)) ∧
      ∀ packet ∈ s.flight, ∀ datagram, parseDatagramETH packet.text = .ok datagram →
        (datagram.type = 1 → ∃ id ∈ net.ids, net.address id = packet.source ∧
          (s.node id).Holds datagram.data) ∧
        (datagram.type = 3 → ∃ id ∈ net.ids, net.address id = packet.target ∧
          (s.node id).Holds datagram.data) ∧
        (datagram.type = 2 → ∃ content, datagram.data = toString (hash content) ++ '|' :: content ∧
          beforeBar datagram.data = toString (hash content) ∧ afterBar datagram.data = content) ∧
        (datagram.type = 3 → ∀ id ∈ net.ids, net.address id = packet.target →
          ((s.node id).dataMap.lookup (beforeBar datagram.data)).isSome ∧ ∀ now draws,
            ((s.node id).receive hash now draws packet.source.1 packet.source.2
              packet.text).2.failure ≠ some .undefinedBehaviour) := by
  have hpulling := GossipHosts.pulling_of_reachable hnode hmaps hrun
  refine ⟨hpulling.maps, fun packet hpacket datagram hparse => ?_⟩
  obtain ⟨sender, datagram', hsaid, origin, task, hbegun, hbroadcast⟩ :=
    hpulling.honest.letters packet hpacket
  obtain rfl : datagram' = datagram := Except.ok.inj (hsaid.parse.symm.trans hparse)
  have hbar := bar_not_mem_toString (hash task.data)
  cases hpulling.letters packet hpacket sender datagram' hsaid origin task hbegun hbroadcast with
  | invitation htype hdata hholds =>
      refine ⟨fun _ => ⟨sender, hsaid.sender_mem, hsaid.source.symm, hdata ▸ hholds⟩, ?_, ?_,
        ?_⟩ <;> exact fun htype' => absurd (htype.symm.trans htype') (by decide)
  | @request holder htype hdata hholder htarget hholds =>
      refine ⟨?_, fun _ => ⟨holder, hholder, htarget, hdata ▸ hholds⟩, ?_, fun _ id hid hid' => ?_⟩
      · exact fun htype' => absurd (htype.symm.trans htype') (by decide)
      · exact fun htype' => absurd (htype.symm.trans htype') (by decide)
      · obtain rfl := net.address_inj hholder hid (htarget.trans hid'.symm)
        have hlookup : ((s.node holder).dataMap.lookup (beforeBar datagram'.data)).isSome := by
          rw [hdata, beforeBar_of_not_mem hbar]
          exact hholds
        have hself : (s.node holder).node.id.length = 32 := by
          rw [(hpulling.honest.hosts holder hholder).node]
          exact net.length_id holder hholder
        exact ⟨hlookup, fun now draws => receive_request_failure hsaid.parse
          (hpulling.honest.hosts holder hholder).mode htype hself hlookup hash now draws _ _⟩
  | @data content htype hdata hhash =>
      refine ⟨?_, ?_, fun _ => ⟨content, ?_, ?_, ?_⟩, ?_⟩
      · exact fun htype' => absurd (htype.symm.trans htype') (by decide)
      · exact fun htype' => absurd (htype.symm.trans htype') (by decide)
      · rw [hdata, hhash]
      · rw [hdata, beforeBar_append hbar, hhash]
      · rw [hdata, afterBar_append hbar]
      · exact fun htype' => absurd (htype.symm.trans htype') (by decide)

/-- The first node announces some data, the second one asks for it. -/
def requestMoves : List GossipMove := [.begin 0 "a,b|c".toList 0 [0, 1, 2], .deliver 0 1 []]

theorem pull_requests_answered_instance :
    ∃ s, Mail.Reachable (gossipNodes List.length) gossipDistrict.unreliable
        (newManagerETH .pull) s ∧
      ∃ packet ∈ s.flight, packet.target = districtAddress (firstRegionId 0) ∧
        ∃ datagram, parseDatagramETH packet.text = .ok datagram ∧ datagram.type = 3 ∧
          ∀ now draws, ((s.node (firstRegionId 0)).receive List.length now draws packet.source.1
            packet.source.2 packet.text).2.failure ≠ some .undefinedBehaviour := by
  obtain ⟨record, hrecord, packet, hpacket, htarget, hrequest⟩ : ∃ record ∈ gossipRun List.length
      .pull (fun _ _ => True) requestMoves, ∃ packet ∈ record.flight,
        packet.target = districtAddress (firstRegionId 0) ∧
          (parseDatagramETH packet.text).toOption.any (fun datagram => datagram.type == 3) := by
    decide +kernel
  have hrun := reachable_gossipRun True hrecord
  cases hparse : parseDatagramETH packet.text with
  | error fault => simp [hparse, Except.toOption] at hrequest
  | ok datagram =>
      have htype : datagram.type = 3 := by simpa [hparse, Except.toOption] using hrequest
      have hfirst : firstRegionId 0 ∈ gossipDistrict.ids := show _ ∈ firstIds 15 by decide
      have hanswered := (pull_requests_answered List.length gossipDistrict (newManagerETH .pull)
        (fun id _ => hosts_newManagerETH .pull id) (by simp [newManagerETH]) record.situation
          hrun).2
          packet hpacket datagram hparse
      exact ⟨record.situation, hrun, packet, hpacket, htarget, datagram, hparse, htype,
        (hanswered.2.2.2 htype (firstRegionId 0) hfirst htarget.symm).2⟩

end Hgfrr
