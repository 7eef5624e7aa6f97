import Hgfrr.Foundation.Counting
import Hgfrr.Gossip.Pull

/-!
# Pull gossip comes to rest

An invitation counts only while somebody lacks the data, and each node stops
lacking it once. A packet in flight is weighed by the number of packets that it
can still cause: what it is, how many nodes lack the data, and whether the node
it serves is one of them. No step increases the packets sent and the weights in
flight together.
-/

namespace Hgfrr

open PeerManagerETH

/-- How many packets an invitation can cause while `n` nodes lack the data. -/
def invitationWeight : ℕ → ℕ
  | 0 => 0
  | n + 1 => 5 + numReceiversEth * invitationWeight n

theorem invitationWeight_mono : Monotone invitationWeight := by
  apply monotone_nat_of_le_succ
  intro n
  induction n with
  | zero => exact Nat.zero_le _
  | succ n ih => exact Nat.add_le_add_left (Nat.mul_le_mul_left _ ih) _

section Weights

variable (net : GossipHosts) (s : GossipSituation) (dataHash : Str)

/-- The nodes that do not have the data. -/
def GossipHosts.lacking : Set Str := {id | id ∈ net.ids ∧ ¬(s.node id).Holds dataHash}

/-- The node at an address does not have the data. -/
def GossipHosts.Lacks (address : Address) : Prop :=
  ∃ id ∈ net.lacking s dataHash, net.address id = address

open Classical in
/-- How many packets data for an address can cause. If it is new there, one node
less will lack it. -/
noncomputable def GossipHosts.dataWeight (address : Address) : ℕ :=
  numReceiversEth * (1 + invitationWeight
    (if net.Lacks s dataHash address then (net.lacking s dataHash).ncard - 1
      else (net.lacking s dataHash).ncard))

/-- How many packets a packet can cause. -/
noncomputable def GossipHosts.weight (packet : Packet) : ℕ :=
  match parseDatagramETH packet.text with
  | .error _ => 0
  | .ok datagram =>
      if datagram.type = 1 then invitationWeight (net.lacking s dataHash).ncard
      else if datagram.type = 2 then net.dataWeight s dataHash packet.target
      else if datagram.type = 3 then 1 + net.dataWeight s dataHash packet.source
      else 0

/-- The weight of a packet, if it belongs to a broadcast. -/
noncomputable def GossipHosts.weightFor (task : BroadcastETH) (hash : Str → ℕ) (packet : Packet) :
    ℕ :=
  if packet.broadcastId = some task.id then net.weight s (toString (hash task.data)) packet else 0

end Weights

section Monotone

variable {net : GossipHosts} {s next : GossipSituation} {dataHash : Str}
  (hkeeps : ∀ id, (s.node id).Holds dataHash → (next.node id).Holds dataHash)
include hkeeps

theorem GossipHosts.lacking_subset : net.lacking next dataHash ⊆ net.lacking s dataHash :=
  fun id hid => ⟨hid.1, fun hholds => hid.2 (hkeeps id hholds)⟩

theorem GossipHosts.ncard_lacking_le :
    (net.lacking next dataHash).ncard ≤ (net.lacking s dataHash).ncard :=
  Set.ncard_le_ncard (net.lacking_subset hkeeps) (net.finite.subset fun _ hid => hid.1)

/-- A node that gets the data is one node less that lacks it. -/
theorem GossipHosts.ncard_lacking_lt {id : Str} (hlacked : id ∈ net.lacking s dataHash)
    (hholds : (next.node id).Holds dataHash) :
    (net.lacking next dataHash).ncard < (net.lacking s dataHash).ncard := by
  refine Set.ncard_lt_ncard ⟨net.lacking_subset hkeeps, fun hsubset => ?_⟩
    (net.finite.subset fun _ hid => hid.1)
  exact (hsubset hlacked).2 hholds

/-- Data that is for a node that lacked it serves a node less afterwards. -/
theorem GossipHosts.dataWeight_mono (address : Address) :
    net.dataWeight next dataHash address ≤ net.dataWeight s dataHash address := by
  have hle := net.ncard_lacking_le hkeeps
  unfold GossipHosts.dataWeight
  refine Nat.mul_le_mul_left _ (Nat.add_le_add_left (invitationWeight_mono ?_) _)
  by_cases hbefore : net.Lacks s dataHash address
  · by_cases hafter : net.Lacks next dataHash address
    · rw [if_pos hbefore, if_pos hafter]
      omega
    · rw [if_pos hbefore, if_neg hafter]
      obtain ⟨id, hid, haddress⟩ := hbefore
      have hholds : (next.node id).Holds dataHash := by
        by_contra hlacks
        exact hafter ⟨id, ⟨hid.1, hlacks⟩, haddress⟩
      have hlt := net.ncard_lacking_lt hkeeps hid hholds
      omega
  · have hafter : ¬net.Lacks next dataHash address := fun ⟨id, hid, haddress⟩ =>
      hbefore ⟨id, net.lacking_subset hkeeps hid, haddress⟩
    rwa [if_neg hbefore, if_neg hafter]

theorem GossipHosts.weight_mono (packet : Packet) :
    net.weight next dataHash packet ≤ net.weight s dataHash packet := by
  unfold GossipHosts.weight
  split
  · exact le_rfl
  · split
    · exact invitationWeight_mono (net.ncard_lacking_le hkeeps)
    · split
      · exact net.dataWeight_mono hkeeps _
      · split
        · exact Nat.add_le_add_left (net.dataWeight_mono hkeeps _) 1
        · exact le_rfl

end Monotone

section Steps

variable {net : GossipHosts} {hash : Str → ℕ} {s : GossipSituation} {id : Str} {packet : Packet}
  {outcome : Mail.Outcome PeerManagerETH Packet FanOut}

section Types

variable {dataHash sender : Str} {datagram : DatagramETH} (h : net.Says packet sender datagram)
include h

theorem GossipHosts.Says.weight_invitation (htype : datagram.type = 1) :
    net.weight s dataHash packet = invitationWeight (net.lacking s dataHash).ncard := by
  rw [GossipHosts.weight, h.parse]
  exact if_pos htype

theorem GossipHosts.Says.weight_data (htype : datagram.type = 2) :
    net.weight s dataHash packet = net.dataWeight s dataHash packet.target := by
  rw [GossipHosts.weight, h.parse]
  simp [htype]

theorem GossipHosts.Says.weight_request (htype : datagram.type = 3) :
    net.weight s dataHash packet = 1 + net.dataWeight s dataHash (net.address sender) := by
  rw [GossipHosts.weight, h.parse, ← h.source]
  simp [htype]

end Types

/-- Each packet pays for what it causes. -/
theorem PeerManagerETH.Reacts.weight_le (h : net.Pulling hash s) (hid : id ∈ net.ids)
    (hpacket : packet ∈ s.flight) (haddress : net.address id = packet.target) {sender : Str}
    {datagram : DatagramETH} (hsaid : net.Says packet sender datagram) {origin : Str}
    {task : BroadcastETH} (hbegun : (origin, task) ∈ s.begun)
    (hbroadcast : datagram.broadcastId = task.id)
    (hreacts : Reacts hash (s.node id) packet outcome) :
    (outcome.letters.map fun letter =>
      1 + net.weight (s.after id outcome) (toString (hash task.data)) letter).sum ≤
        net.weight s (toString (hash task.data)) packet := by
  have hhosts := h.honest.hosts id hid
  have hpulls := h.letters packet hpacket sender datagram hsaid origin task hbegun hbroadcast
  have hcomma : ',' ∉ datagram.broadcastId := hbroadcast ▸ (h.honest.numeral hbegun).1.comma
  have hsender : ',' ∉ datagram.senderId := by
    rw [hsaid.senderId]
    exact (net.numeral sender hsaid.sender_mem).comma
  have hkeeps : ∀ other, (s.node other).Holds (toString (hash task.data)) →
      ((s.after id outcome).node other).Holds (toString (hash task.data)) :=
    fun other => holds_update hreacts.holds
  have hle := net.ncard_lacking_le hkeeps
  cases hreacts with
  | ignores log => exact Nat.zero_le _
  | relays _ _ hmode => exact absurd (hmode.symm.trans hhosts.mode) (by decide)
  | @requests msg data reply log hread hmode htype hlacks hposts =>
      obtain ⟨hsender', hbroadcast', htype', _, hdata', _⟩ := hsaid.of_read hread
      obtain ⟨messageId, hreply⟩ := GossipHosts.says_of_posts hid hhosts
        (show ',' ∉ msg.senderId from hsender' ▸ hsender)
        (show ',' ∉ msg.broadcastId from hbroadcast' ▸ hcomma) (show FitsInt 3 by decide) hposts
      have hdata : data = toString (hash task.data) := by
        cases hpulls with
        | invitation _ hdata => exact hdata'.trans hdata
        | request htype'' => rw [htype', htype''] at htype; exact absurd htype (by decide)
        | data htype'' => rw [htype', htype''] at htype; exact absurd htype (by decide)
      have hlacking : id ∈ net.lacking s (toString (hash task.data)) := by
        refine ⟨hid, ?_⟩
        rw [Holds, ← hdata, hlacks]
        simp
      have hpos := (Set.ncard_pos (net.finite.subset fun _ hid => hid.1)).mpr ⟨id, hlacking⟩
      obtain ⟨n, hn⟩ := Nat.exists_eq_succ_of_ne_zero hpos.ne'
      have hmonoSelf := net.dataWeight_mono hkeeps (net.address id)
      have hself : net.dataWeight s (toString (hash task.data)) (net.address id) =
          numReceiversEth * (1 + invitationWeight n) := by
        rw [GossipHosts.dataWeight, if_pos ⟨id, hlacking, rfl⟩, hn, Nat.succ_sub_one]
      rw [List.map_singleton, List.sum_singleton, hsaid.weight_invitation (htype'.symm.trans htype),
        hreply.weight_request rfl, hn, invitationWeight]
      rw [hself] at hmonoSelf
      simp only [numReceiversEth] at hmonoSelf ⊢
      omega
  | @replies msg data reply realData log hread hmode htype hholds hposts =>
      obtain ⟨hsender', hbroadcast', htype', _, _⟩ := hsaid.of_read hread
      obtain ⟨messageId, hreply⟩ := GossipHosts.says_of_posts hid hhosts
        (show ',' ∉ msg.senderId from hsender' ▸ hsender)
        (show ',' ∉ msg.broadcastId from hbroadcast' ▸ hcomma) (show FitsInt 2 by decide) hposts
      have htarget : reply.target = net.address sender := by
        rw [← hsaid.source]
        obtain ⟨n, rfl⟩ := hposts
        rfl
      rw [List.map_singleton, List.sum_singleton, hsaid.weight_request (htype'.symm.trans htype),
        hreply.weight_data rfl, htarget]
      exact Nat.add_le_add_left (net.dataWeight_mono hkeeps _) 1
  | @announces msg data packets log hread hmode htype hfans =>
      obtain ⟨_, hbroadcast', htype', _, hdata', _⟩ := hsaid.of_read hread
      rw [hsaid.weight_data (htype'.symm.trans htype), ← haddress]
      set next := s.after id ⟨{ s.node id with
        msgTable := log
        dataMap := mapInsert (beforeBar data, afterBar data) (s.node id).dataMap }, packets,
        [⟨msg.broadcastId, packet.chain⟩]⟩ with hnext
      have hholds : (next.node id).Holds (toString (hash task.data)) := by
        cases hpulls with
        | data _ hdata =>
            rw [hnext, Mail.Situation.after_node, Function.update_self, hdata'.trans hdata,
              beforeBar_append (bar_not_mem_toString _)]
            exact lookup_isSome_mapInsert.mpr (Or.inl rfl)
        | invitation htype'' => rw [htype', htype''] at htype; exact absurd htype (by decide)
        | request htype'' => rw [htype', htype''] at htype; exact absurd htype (by decide)
      have hweights : ∀ weight ∈ packets.map (fun letter =>
          1 + net.weight next (toString (hash task.data)) letter),
          weight ≤ 1 + invitationWeight (net.lacking next (toString (hash task.data))).ncard := by
        intro weight hweight
        obtain ⟨letter, hletter, rfl⟩ := List.mem_map.mp hweight
        obtain ⟨_, datagram', hsaid', _, htype'', _⟩ :=
          hfans.said hid hhosts (hbroadcast' ▸ hcomma) hletter
        rw [hsaid'.weight_invitation htype'']
      refine (List.sum_le_card_nsmul _ _ hweights).trans ?_
      rw [List.length_map, smul_eq_mul, GossipHosts.dataWeight]
      refine Nat.mul_le_mul hfans.length_le (Nat.add_le_add_left (invitationWeight_mono ?_) 1)
      split
      next hlacks =>
        obtain ⟨other, hother, hsame⟩ := hlacks
        obtain rfl := net.address_inj hother.1 hid hsame
        have hlt := net.ncard_lacking_lt hkeeps hother hholds
        omega
      next => exact hle

/-- The packets sent for a broadcast, and those that the packets in flight can
still cause. -/
noncomputable def GossipHosts.account (net : GossipHosts) (hash : Str → ℕ) (s : GossipSituation)
    (task : BroadcastETH) : ℕ :=
  s.sent.countP (fun packet => packet.broadcastId = some task.id) +
    (s.flight.map (net.weightFor s task hash)).sum

/-- What every situation of a network satisfies that delivers each packet at most
once. -/
structure GossipHosts.Ebbing (net : GossipHosts) (hash : Str → ℕ) (s : GossipSituation) : Prop where
  pulling : net.Pulling hash s
  sent : ∀ packet ∈ s.sent, ∃ origin task, (origin, task) ∈ s.begun ∧
    packet.broadcastId = some task.id
  account_le : ∀ origin task, (origin, task) ∈ s.begun →
    net.account hash s task ≤ numReceiversEth * (1 + invitationWeight net.ids.ncard)

/-- When nodes keep what they have, a step does not charge a broadcast more than
its new packets cost. -/
theorem GossipHosts.account_after_le {task : BroadcastETH} (rest : Multiset Packet) {price : ℕ}
    (hkeeps : ∀ other, (s.node other).Holds (toString (hash task.data)) →
      ((s.after id outcome).node other).Holds (toString (hash task.data)))
    (hprice : (outcome.letters.map fun letter =>
      if letter.broadcastId = some task.id then
        1 + net.weight (s.after id outcome) (toString (hash task.data)) letter
          else 0).sum ≤ price) :
    net.account hash ((s.withFlight rest).after id outcome) task ≤
      price + s.sent.countP (fun packet => packet.broadcastId = some task.id) +
        (rest.map (net.weightFor s task hash)).sum := by
  have hold : (rest.map (net.weightFor ((s.withFlight rest).after id outcome) task hash)).sum ≤
      (rest.map (net.weightFor s task hash)).sum := by
    refine Multiset.sum_map_le_sum_map _ _ fun packet _ => ?_
    unfold GossipHosts.weightFor
    split
    · exact net.weight_mono hkeeps packet
    · exact le_rfl
  have hnew := List.countP_add_sum_ite outcome.letters
    (fun letter => letter.broadcastId = some task.id)
    (net.weight (s.after id outcome) (toString (hash task.data)))
  have hcost : outcome.letters.countP (fun letter => letter.broadcastId = some task.id) +
      (outcome.letters.map (net.weightFor ((s.withFlight rest).after id outcome) task hash)).sum ≤
        price := hnew.trans_le hprice
  rw [GossipHosts.account, Mail.Situation.after_sent, Mail.Situation.after_flight,
    Mail.Situation.withFlight_sent, Mail.Situation.withFlight_flight, Multiset.countP_add,
    Multiset.coe_countP, Multiset.map_add, Multiset.sum_add, Multiset.map_coe, Multiset.sum_coe]
  omega

namespace GossipHosts.Ebbing

theorem start {node : Str → PeerManagerETH}
    (hnode : ∀ id ∈ net.ids, net.Hosts .pull id (node id))
    (hmaps : ∀ id ∈ net.ids, ∀ entry ∈ (node id).dataMap, entry.1 = toString (hash entry.2)) :
    net.Ebbing hash (Mail.Situation.start node) where
  pulling := .start hnode hmaps
  sent := by simp [Mail.Situation.start]
  account_le := by simp [Mail.Situation.start]

theorem lose (h : net.Ebbing hash s) {rest : Multiset Packet}
    (hflight : s.flight = packet ::ₘ rest) :
    net.Ebbing hash (s.withFlight rest) where
  pulling := h.pulling.withFlight fun other hother => hflight ▸ Multiset.mem_cons_of_mem hother
  sent := h.sent
  account_le origin task hbegun := by
    refine le_trans ?_ (h.account_le origin task hbegun)
    refine Nat.add_le_add_left ?_ _
    rw [hflight, Multiset.map_cons, Multiset.sum_cons]
    exact Nat.le_add_left _ _

theorem begin (h : net.Ebbing hash s) (hid : id ∈ net.ids) {task : BroadcastETH}
    (hstep : (gossipNodes hash).begins (s.node id) task outcome) :
    net.Ebbing hash ((s.after id outcome).noting id task) := by
  obtain ⟨htask, ⟨log, hstate⟩, hevents, hfans⟩ := begins_cases hstep
  have hpulling := h.pulling.begin hid hstep
  have hcomma : ',' ∉ task.id := (hpulling.honest.numeral List.mem_cons_self).1.comma
  have hnew : ∀ letter ∈ outcome.letters, letter.broadcastId = some task.id := by
    intro letter hletter
    obtain ⟨_, datagram, hsaid, hbroadcast, _⟩ := hfans.said hid (h.pulling.honest.hosts id hid)
      hcomma hletter
    rw [hsaid.broadcastId_eq, hbroadcast]
  have hkeeps : ∀ dataHash other, (s.node other).Holds dataHash →
      ((s.after id outcome).node other).Holds dataHash := by
    intro dataHash other
    refine holds_update fun hholds => ?_
    rw [hstate]
    exact lookup_isSome_mapInsert.mpr (Or.inr hholds)
  refine ⟨hpulling, fun packet hpacket => ?_, fun origin other hbegun => ?_⟩
  · rcases Multiset.mem_add.mp hpacket with hletter | hold
    · exact ⟨id, task, List.mem_cons_self, hnew packet (Multiset.mem_coe.mp hletter)⟩
    · obtain ⟨origin, other, hbegun, heq⟩ := h.sent packet hold
      exact ⟨origin, other, List.mem_cons_of_mem _ hbegun, heq⟩
  · rcases List.mem_cons.mp hbegun with hfirst | hbegun
    · obtain ⟨rfl, rfl⟩ := Prod.mk.inj hfirst
      have hunsent : s.sent.countP (fun packet => packet.broadcastId = some other.id) = 0 := by
        refine Multiset.countP_eq_zero.mpr fun packet hpacket heq => ?_
        obtain ⟨origin', other', hbegun', heq'⟩ := h.sent packet hpacket
        exact h.pulling.honest.fresh hid htask hbegun' (Option.some.inj (heq'.symm.trans heq))
      have hnone : (s.flight.map (net.weightFor s other hash)).sum = 0 := by
        refine Multiset.sum_eq_zero fun weight hweight => ?_
        obtain ⟨packet, hpacket, rfl⟩ := Multiset.mem_map.mp hweight
        obtain ⟨_, datagram, hsaid, origin', other', hbegun', hbroadcast⟩ :=
          h.pulling.honest.letters packet hpacket
        refine if_neg fun heq => h.pulling.honest.fresh hid htask hbegun' ?_
        exact hbroadcast.symm.trans (Option.some.inj (hsaid.broadcastId_eq.symm.trans heq))
      have hprice : (outcome.letters.map fun letter => if letter.broadcastId = some other.id then
          1 + net.weight (s.after origin outcome) (toString (hash other.data)) letter else 0).sum ≤
          numReceiversEth * (1 + invitationWeight net.ids.ncard) := by
        refine (List.sum_le_card_nsmul _ (1 + invitationWeight net.ids.ncard) ?_).trans ?_
        · intro weight hweight
          obtain ⟨letter, hletter, rfl⟩ := List.mem_map.mp hweight
          obtain ⟨_, datagram, hsaid, _, htype, _⟩ :=
            hfans.said hid (h.pulling.honest.hosts origin hid) hcomma hletter
          rw [if_pos (hnew letter hletter), hsaid.weight_invitation htype]
          refine Nat.add_le_add_left (invitationWeight_mono ?_) 1
          exact Set.ncard_le_ncard (fun _ hid => hid.1) net.finite
        · rw [List.length_map, smul_eq_mul]
          exact Nat.mul_le_mul_right _ hfans.length_le
      have hle := net.account_after_le s.flight (hkeeps (toString (hash other.data))) hprice
      rw [hunsent, hnone] at hle
      exact hle
    · have hprice : (outcome.letters.map fun letter => if letter.broadcastId = some other.id then
          1 + net.weight (s.after id outcome) (toString (hash other.data)) letter
            else 0).sum ≤ 0 := by
        refine le_of_eq (List.sum_eq_zero fun weight hweight => ?_)
        obtain ⟨letter, hletter, rfl⟩ := List.mem_map.mp hweight
        refine if_neg fun heq => h.pulling.honest.fresh hid htask hbegun ?_
        exact Option.some.inj (heq.symm.trans (hnew letter hletter))
      have hle := net.account_after_le s.flight (hkeeps (toString (hash other.data))) hprice
      rw [Nat.zero_add] at hle
      exact le_trans hle (h.account_le origin other hbegun)

theorem deliver (h : net.Ebbing hash s) (hid : id ∈ net.ids) {rest : Multiset Packet}
    (hflight : s.flight = packet ::ₘ rest) (haddress : net.address id = packet.target)
    (hreacts : Reacts hash (s.node id) packet outcome) :
    net.Ebbing hash ((s.withFlight rest).after id outcome) := by
  have hpacket : packet ∈ s.flight := by simp [hflight]
  have hpulling : net.Pulling hash ((s.withFlight rest).after id outcome) := by
    refine (h.pulling.deliver hid hpacket hreacts).withFlight fun other hother => ?_
    rcases Multiset.mem_add.mp hother with hnew | hold
    · exact Multiset.mem_add.mpr (Or.inl hnew)
    · exact Multiset.mem_add.mpr (Or.inr (hflight ▸ Multiset.mem_cons_of_mem hold))
  obtain ⟨sender, datagram, hsaid, origin, task, hbegun, hbroadcast⟩ :=
    h.pulling.honest.letters packet hpacket
  have hcomma : ',' ∉ datagram.broadcastId :=
    hbroadcast ▸ (h.pulling.honest.numeral hbegun).1.comma
  have hnew : ∀ letter ∈ outcome.letters, letter.broadcastId = packet.broadcastId := by
    intro letter hletter
    obtain ⟨datagram', hsaid', heq⟩ :=
      (hreacts.said hid (h.pulling.honest.hosts id hid) hsaid hcomma).1 letter hletter
    rw [hsaid'.broadcastId_eq, hsaid.broadcastId_eq, heq]
  refine ⟨hpulling, fun other hother => ?_, fun origin' task' hbegun' => ?_⟩
  · rcases Multiset.mem_add.mp hother with hletter | hold
    · refine ⟨origin, task, hbegun, ?_⟩
      rw [hnew other (Multiset.mem_coe.mp hletter), hsaid.broadcastId_eq, hbroadcast]
    · exact h.sent other hold
  · have hpaid : (outcome.letters.map fun letter => if letter.broadcastId = some task'.id then
        1 + net.weight (s.after id outcome) (toString (hash task'.data)) letter else 0).sum ≤
        net.weightFor s task' hash packet := by
      by_cases heq : packet.broadcastId = some task'.id
      · have heq' : datagram.broadcastId = task'.id :=
          Option.some.inj (hsaid.broadcastId_eq.symm.trans heq)
        have hweight := hreacts.weight_le h.pulling hid hpacket haddress hsaid hbegun' heq'
        rw [GossipHosts.weightFor, if_pos heq]
        refine le_trans (le_of_eq
          (congrArg List.sum (List.map_congr_left fun letter hletter => ?_))) hweight
        rw [if_pos ((hnew letter hletter).trans heq)]
      · refine le_trans (le_of_eq (List.sum_eq_zero fun weight hweight => ?_)) (Nat.zero_le _)
        obtain ⟨letter, hletter, rfl⟩ := List.mem_map.mp hweight
        exact if_neg fun hletterId => heq ((hnew letter hletter).symm.trans hletterId)
    have hle := net.account_after_le rest (fun other => holds_update hreacts.holds) hpaid
    refine le_trans (hle.trans (le_of_eq ?_)) (h.account_le origin' task' hbegun')
    rw [GossipHosts.account, hflight, Multiset.map_cons, Multiset.sum_cons]
    omega

theorem of_reachable {admits : PeerManagerETH → Packet → Prop} {node : Str → PeerManagerETH}
    (hnode : ∀ id ∈ net.ids, net.Hosts .pull id (node id))
    (hmaps : ∀ id ∈ net.ids, ∀ entry ∈ (node id).dataMap, entry.1 = toString (hash entry.2))
    (hrun : Mail.Reachable (gossipNodes hash) (net.rules admits False) node s) :
    net.Ebbing hash s := by
  induction hrun with
  | refl => exact .start hnode hmaps
  | @tail s next _ hstep ih =>
      cases hstep with
      | begin hid hstep => exact ih.begin hid hstep
      | @deliver _ packet _ _ hid hflight haddressed hadmits hstep =>
          have hpacket : packet ∈ s.flight := by simp [hflight]
          have hnonempty := ih.pulling.honest.nonempty hpacket
          exact ih.deliver hid hflight haddressed (receives_cases hnonempty hstep)
      | lose hflight => exact ih.lose hflight
      | duplicate hduplicates => exact hduplicates.elim

end GossipHosts.Ebbing

end Steps

/-- Pull gossip comes to rest: there is a bound, the same for all runs, on the
packets that are ever sent for a broadcast, as long as each packet is delivered at
most once. -/
theorem pull_gossip_terminates (hash : Str → ℕ) (net : GossipHosts) (node : Str → PeerManagerETH)
    (hnode : ∀ id ∈ net.ids, net.Hosts .pull id (node id))
    (hmaps : ∀ id ∈ net.ids, ∀ entry ∈ (node id).dataMap, entry.1 = toString (hash entry.2)) :
    ∃ bound, ∀ s, Mail.Reachable (gossipNodes hash) net.withoutCopies node s →
      ∀ origin task, (origin, task) ∈ s.begun →
        s.sent.countP (fun packet => packet.broadcastId = some task.id) ≤ bound := by
  refine ⟨numReceiversEth * (1 + invitationWeight net.ids.ncard),
    fun s hrun origin task hbegun => ?_⟩
  have hebbing := GossipHosts.Ebbing.of_reachable hnode hmaps hrun
  exact (Nat.le_add_right _ _).trans (hebbing.account_le origin task hbegun)

/-- The first node announces some data, which the second one gets and announces. -/
theorem pull_gossip_terminates_instance :
    ∃ bound, ∃ record ∈ gossipRun List.length .pull (fun _ _ => True)
      [.begin 0 "a,b|c".toList 0 [0, 1, 2], .deliver 0 1 [], .deliver 0 0 [],
       .deliver 0 1 [0, 1, 2]],
      8 ≤ bound ∧ record.situation.sent.countP (fun packet =>
        packet.broadcastId = some (firstRegionId 0 ++ setw 16 0)) ≤ bound := by
  obtain ⟨bound, hbound⟩ := pull_gossip_terminates List.length gossipDistrict (newManagerETH .pull)
    (fun id _ => hosts_newManagerETH .pull id) (by simp [newManagerETH])
  obtain ⟨record, hrecord, hbegun, hsent⟩ : ∃ record ∈ gossipRun List.length .pull
      (fun _ _ => True) [.begin 0 "a,b|c".toList 0 [0, 1, 2], .deliver 0 1 [], .deliver 0 0 [],
        .deliver 0 1 [0, 1, 2]],
      (firstRegionId 0, ⟨firstRegionId 0 ++ setw 16 0, "a,b|c".toList, 0⟩) ∈ record.begun ∧
        record.situation.sent.countP (fun packet =>
          packet.broadcastId = some (firstRegionId 0 ++ setw 16 0)) = 8 := by
    decide +kernel
  have hle := hbound record.situation (reachable_gossipRun False hrecord) (firstRegionId 0) _ hbegun
  exact ⟨bound, record, hrecord, hsent ▸ hle, hle⟩

end Hgfrr
