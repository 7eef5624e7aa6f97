import Hgfrr.Model.PeerManagerEth
import Hgfrr.Wire.Integrity

/-!
# Payload integrity of the gossip protocol

In push mode a node sends on the data it receives, under the same broadcast id.
The statement for both protocols ends this file.
-/

namespace Hgfrr

open Datagrams Emission

/-- Nodes with ids of 32 characters, each with its routing table, that know
only each other. -/
structure GossipNetwork where
  ids : Set Str
  table : Str → List Node
  length_id : ∀ id ∈ ids, id.length = 32
  peers_mem : ∀ id ∈ ids, ∀ peer ∈ table id, peer.id ∈ ids

/-- A peer manager of a node in push mode, in whatever state its logs and
counters are. -/
structure GossipNetwork.Runs (net : GossipNetwork) (id : Str) (pm : PeerManagerETH) : Prop where
  node : pm.node.id = id
  table : pm.nodeTable = net.table id
  mode : pm.mode = .push

/-- What a gossip peer manager does: start a broadcast, `send`, and `receive`. -/
def ethNodes (hash : Str → ℕ) : Behaviour PeerManagerETH SendCallETH Str Str Str where
  originate pm payload outcome := ∃ draws ttl,
    payload.1 = pm.numbered 16 pm.broadcastedMsgs.length ∧
      outcome = ⟨(pm.broadcast hash draws payload.2 ttl []).1,
        (pm.broadcast hash draws payload.2 ttl []).2.emitted, [], []⟩
  perform pm call outcome := ∃ now,
    outcome = ⟨(pm.send now call).1, [], [(pm.send now call).2.2.2], []⟩
  receive pm text outcome := ∃ now draws ip port,
    outcome = ⟨(pm.receive hash now draws ip port text).1,
      (pm.receive hash now draws ip port text).2.emitted, [],
      match readDatagramETH pm.mode text with
      | .ok (some (msg, data)) => [(msg.broadcastId, data)]
      | _ => []⟩

section Receivers

variable {routingTable : List Node} {receiver : Node}

theorem mem_of_routingTableAt {id : ℕ} (h : routingTableAt routingTable id = .ok receiver) :
    receiver ∈ routingTable := by
  unfold routingTableAt at h
  split at h
  next node hnode =>
    obtain rfl : node = receiver := Except.ok.inj h
    exact List.mem_of_getElem? hnode
  next => cases h

/-- Draws that end give as many receivers as are missing, all from the routing table. -/
theorem drawReceivers_eq_ok {draws : List ℕ} {missing : ℕ} {randomIds : List ℤ}
    {receivers : List Node}
    (h : drawReceivers routingTable draws missing randomIds = .ok receivers) :
    receivers.length = missing ∧ ∀ receiver ∈ receivers, receiver ∈ routingTable := by
  induction draws generalizing missing randomIds receivers with
  | nil =>
      cases missing with
      | zero =>
          obtain rfl : [] = receivers := Except.ok.inj h
          simp
      | succ missing => cases h
  | cons rand draws ih =>
      cases missing with
      | zero =>
          obtain rfl : [] = receivers := Except.ok.inj h
          simp
      | succ missing =>
          rw [drawReceivers] at h
          obtain ⟨id, _, h⟩ := Except.bind_eq_ok.mp h
          split at h
          next => exact ih h
          next =>
            obtain ⟨node, hnode, h⟩ := Except.bind_eq_ok.mp h
            obtain ⟨rest, hrest, h⟩ := Except.bind_eq_ok.mp h
            obtain rfl : node :: rest = receivers := Except.ok.inj h
            obtain ⟨hlength, hmem⟩ := ih hrest
            rw [List.length_cons, hlength, List.forall_mem_cons]
            exact ⟨rfl, mem_of_routingTableAt hnode, hmem⟩

theorem receiverList_eq_ok {draws : List ℕ} {receivers : List Node}
    (h : receiverList routingTable draws = .ok receivers) :
    receivers.length ≤ numReceiversEth ∧ ∀ receiver ∈ receivers, receiver ∈ routingTable := by
  cases draws with
  | nil => cases h
  | cons trial draws =>
      have hdrawn : ∀ first : List Node, first.length ≤ 1 → (∀ node ∈ first, node ∈ routingTable) →
          (drawReceivers routingTable draws (numReceiversEth - 1) [0] >>= fun rest =>
            pure (first ++ rest)) = .ok receivers →
          receivers.length ≤ numReceiversEth ∧ ∀ receiver ∈ receivers, receiver ∈ routingTable := by
        intro first hone hfirst h
        obtain ⟨rest, hrest, h⟩ := Except.bind_eq_ok.mp h
        obtain rfl : first ++ rest = receivers := Except.ok.inj h
        obtain ⟨hlength, hmem⟩ := drawReceivers_eq_ok hrest
        rw [List.length_append, hlength, List.forall_mem_append]
        exact ⟨Nat.add_le_of_le_sub (by decide) hone, hfirst, hmem⟩
      simp only [receiverList] at h
      split at h
      next =>
        obtain ⟨first, hfirst, h⟩ := Except.bind_eq_ok.mp h
        cases hat : routingTableAt routingTable 0 with
        | error => simp [hat, Except.map] at hfirst
        | ok node =>
            rw [hat] at hfirst
            obtain rfl : [node] = first := Except.ok.inj hfirst
            exact hdrawn [node] le_rfl (by simpa using mem_of_routingTableAt hat) h
      next => exact hdrawn [] (Nat.zero_le 1) (by simp) h

end Receivers

section Datagrams

variable {pm : PeerManagerETH} {receiver : Node} {messageId data : Str} {msg : Message}

/-- Parsing takes a gossip datagram apart into the fields it was made of. -/
theorem parseDatagramETH_dataString (data : Str) (hsender : ',' ∉ pm.node.id)
    (hreceiver : ',' ∉ receiver.id)
    (hbroadcast : ',' ∉ msg.broadcastId) (hmessage : ',' ∉ messageId) :
    parseDatagramETH (pm.dataString receiver messageId msg data) = do
      let type ← stoi (toString msg.type)
      return ⟨pm.node.id, receiver.id, msg.broadcastId, messageId, type, toString msg.ttl,
        data⟩ := by
  rw [← parseDatagramETH_fields hsender hreceiver hbroadcast hmessage
    (comma_not_mem_toString msg.type) (comma_not_mem_toString msg.ttl) data]
  simp [PeerManagerETH.dataString]

/-- What is handled of a datagram is in the datagram. -/
theorem parse_of_readDatagramETH {mode : GossipMode} {text : Str}
    (h : readDatagramETH mode text = .ok (some (msg, data))) :
    ∃ datagram, parseDatagramETH text = .ok datagram ∧ msg.broadcastId = datagram.broadcastId ∧
      data = datagram.data := by
  obtain ⟨datagram, hdatagram, h⟩ := Except.bind_eq_ok.mp h
  refine ⟨datagram, hdatagram, ?_⟩
  split at h
  next => cases h
  next =>
    obtain ⟨ttl, _, h⟩ := Except.bind_eq_ok.mp h
    simp only [pure, Except.pure, Except.ok.injEq, Option.some.injEq, Prod.mk.injEq] at h
    obtain ⟨rfl, rfl⟩ := h
    exact ⟨rfl, rfl⟩

end Datagrams

section Broadcasts

variable {pm : PeerManagerETH} {hash : Str → ℕ} {draws : List ℕ} {data : Str} {ttl : ℤ}

/-- The id that a broadcast goes out under. -/
def PeerManagerETH.broadcastIdFor (pm : PeerManagerETH) (broadcastId : Str) : Str :=
  if broadcastId = [] then pm.numbered 16 pm.broadcastedMsgs.length else broadcastId

theorem broadcast_emitted (hmode : pm.mode = .push) {broadcastId : Str} {call : SendCallETH}
    (h : call ∈ (pm.broadcast hash draws data ttl broadcastId).2.emitted) :
    call.msg.broadcastId = pm.broadcastIdFor broadcastId ∧ call.data = data ∧
      call.receiver ∈ pm.nodeTable := by
  obtain ⟨receivers, hreceivers, h⟩ := mem_emitted_ofExcept h
  obtain ⟨receiver, hreceiver, rfl⟩ := List.mem_map.mp h
  have hmem := (receiverList_eq_ok hreceivers).2 receiver hreceiver
  by_cases hnew : broadcastId = [] <;>
    simp [PeerManagerETH.broadcastTo, hnew, hmode, PeerManagerETH.broadcastIdFor, hmem]

theorem broadcast_count (pm : PeerManagerETH) (hash : Str → ℕ) (draws : List ℕ) (data : Str)
    (ttl : ℤ) (broadcastId : Str) :
    (pm.broadcast hash draws data ttl broadcastId).1.broadcastedMsgs.length =
      pm.broadcastedMsgs.length + if broadcastId = [] then 1 else 0 := by
  by_cases hnew : broadcastId = [] <;> simp [PeerManagerETH.broadcast, hnew]

end Broadcasts

/-- A call of `send` that stands for a broadcast. -/
structure SendCallETH.Carries (net : GossipNetwork) (call : SendCallETH) (payload : Str × Str) :
    Prop where
  broadcastId : call.msg.broadcastId = payload.1
  data : call.data = payload.2
  comma : ',' ∉ payload.1
  nonempty : payload.1 ≠ []
  receiver : call.receiver.id ∈ net.ids

/-- A datagram that is read as data of a broadcast, if it is read at all. -/
def SpellsETH (text : Str) (payload : Str × Str) : Prop :=
  ',' ∉ payload.1 ∧ payload.1 ≠ [] ∧ ∀ datagram, parseDatagramETH text = .ok datagram →
    datagram.broadcastId = payload.1 ∧ datagram.data = payload.2

section Steps

variable {net : GossipNetwork} {id : Str} {pm : PeerManagerETH} {payload : Str × Str}

/-- The sends of a broadcast of data under a given id. -/
theorem carries_broadcast (payload : Str × Str) (hid : id ∈ net.ids) (hruns : net.Runs id pm)
    (hcomma : ',' ∉ payload.1)
    (hnonempty : payload.1 ≠ []) {broadcastId : Str}
    (hbroadcast : payload.1 = pm.broadcastIdFor broadcastId) {hash : Str → ℕ} {draws : List ℕ}
    {ttl : ℤ} {call : SendCallETH}
    (h : call ∈ (pm.broadcast hash draws payload.2 ttl broadcastId).2.emitted) :
    call.Carries net payload := by
  obtain ⟨hcall, hdata, hreceiver⟩ := broadcast_emitted hruns.mode h
  exact ⟨hcall.trans hbroadcast.symm, hdata, hcomma, hnonempty,
    net.peers_mem id hid _ (hruns.table ▸ hreceiver)⟩

theorem runs_broadcast (hruns : net.Runs id pm) (hash : Str → ℕ) (draws : List ℕ) (data : Str)
    (ttl : ℤ) (broadcastId : Str) :
    net.Runs id (pm.broadcast hash draws data ttl broadcastId).1 := by
  have hsame := pm.broadcast_sameNode hash draws data ttl broadcastId
  exact ⟨hsame.node ▸ hruns.node, hsame.nodeTable.trans hruns.table, hsame.mode.trans hruns.mode⟩

/-- What a node in push mode does with a message. -/
theorem onReceive_push (payload : Str × Str) (hid : id ∈ net.ids) (hruns : net.Runs id pm)
    (hcomma : ',' ∉ payload.1)
    (hnonempty : payload.1 ≠ []) {msg : Message} (hbroadcast : msg.broadcastId = payload.1)
    (hash : Str → ℕ) (draws : List ℕ) (ip : Str) (port : ℕ) :
    net.Runs id (pm.onReceive hash draws msg payload.2 ip port).1 ∧
      (pm.onReceive hash draws msg payload.2 ip port).1.broadcastedMsgs.length =
        pm.broadcastedMsgs.length ∧
      ∀ call ∈ (pm.onReceive hash draws msg payload.2 ip port).2.emitted,
        call.Carries net payload := by
  unfold PeerManagerETH.onReceive
  cases hopDelay msg.senderId pm.node.id with
  | error fault => exact ⟨hruns, rfl, by simp⟩
  | ok delay =>
      simp only [hruns.mode, PeerManagerETH.onReceivePush]
      split
      next => exact ⟨hruns, rfl, by simp⟩
      next =>
        have hold : msg.broadcastId ≠ [] := hbroadcast ▸ hnonempty
        have hseen : net.Runs id { pm with
            broadcastedMsgsAllNodes := pm.broadcastedMsgsAllNodes ++ [msg.broadcastId] } :=
          ⟨hruns.node, hruns.table, hruns.mode⟩
        refine ⟨?_, ?_, fun call hcall => ?_⟩
        · simpa [hruns.mode] using runs_broadcast hseen hash draws payload.2 (msg.ttl - 1)
            msg.broadcastId
        · simpa [hold, hruns.mode] using broadcast_count { pm with
            broadcastedMsgsAllNodes := pm.broadcastedMsgsAllNodes ++ [msg.broadcastId] } hash draws
            payload.2 (msg.ttl - 1) msg.broadcastId
        · refine carries_broadcast payload hid hseen hcomma hnonempty ?_
            (by simpa [hruns.mode] using hcall)
          rw [PeerManagerETH.broadcastIdFor, if_neg hold, hbroadcast]

/-- The datagram of a call spells what the call carries. -/
theorem SendCallETH.Carries.spells (hnumeral : ∀ id ∈ net.ids, IsNumeral id) (hid : id ∈ net.ids)
    (hruns : net.Runs id pm) {call : SendCallETH} (h : call.Carries net payload) (now : ℤ) :
    SpellsETH (pm.send now call).2.2.2 payload := by
  have hsender : ',' ∉ pm.node.id := hruns.node ▸ (hnumeral id hid).comma
  have hmessage : ',' ∉ pm.numbered 24 pm.msgTable.numMsgsInTotal := by
    rw [PeerManagerETH.numbered, List.mem_append]
    exact not_or.mpr ⟨hsender, comma_not_mem_setw _ _⟩
  have hparse := parseDatagramETH_dataString call.data hsender
    (hnumeral _ h.receiver).comma (h.broadcastId ▸ h.comma) hmessage
  refine ⟨h.comma, h.nonempty, fun datagram hok => ?_⟩
  obtain ⟨type, _, hok⟩ := Except.bind_eq_ok.mp (hparse.symm.trans hok)
  obtain rfl := Except.ok.inj hok
  exact ⟨h.broadcastId, h.data⟩

end Steps

/-- The gossip protocol in push mode passes on what it is asked to broadcast. -/
def ethProvenance (net : GossipNetwork) (hnumeral : ∀ id ∈ net.ids, IsNumeral id)
    (hash : Str → ℕ) : Provenance (ethNodes hash) net.ids where
  Sound := net.Runs
  count pm := pm.broadcastedMsgs.length
  tag id n := id ++ setw 16 n
  tag_inj := by
    intro x hx y hy m n h
    obtain ⟨rfl, htail⟩ := List.append_inj h ((net.length_id x hx).trans (net.length_id y hy).symm)
    exact ⟨rfl, Decimal.padded_injective 16 htail⟩
  Carries call payload := call.Carries net payload
  Spells := SpellsETH
  originate := by
    rintro id hid pm ⟨broadcastId, data⟩ outcome hruns ⟨draws, ttl, hbroadcast, rfl⟩
    have htag : broadcastId = id ++ setw 16 pm.broadcastedMsgs.length := hruns.node ▸ hbroadcast
    refine ⟨htag, runs_broadcast hruns hash draws data ttl [], ?_, fun call hcall => ?_, by simp,
      rfl⟩
    · rw [broadcast_count]
      simp
    · have hnumeralId : IsNumeral broadcastId := by
        rw [htag]
        exact List.forall_mem_append.mpr ⟨hnumeral id hid, isNumeral_setw 16 _⟩
      have hnonempty : broadcastId ≠ [] := by
        rw [htag]
        refine List.append_ne_nil_of_left_ne_nil (List.ne_nil_of_length_pos ?_) _
        rw [net.length_id id hid]
        omega
      exact carries_broadcast (broadcastId, data) hid hruns hnumeralId.comma hnonempty
        (hbroadcast.trans (if_pos rfl).symm) hcall
  perform := by
    rintro id hid pm call payload outcome hruns hcarries ⟨now, rfl⟩
    refine ⟨⟨hruns.node, hruns.table, hruns.mode⟩, le_rfl, by simp, ?_, by simp⟩
    intro text htext
    obtain rfl := List.mem_singleton.mp htext
    exact hcarries.spells hnumeral hid hruns now
  receive := by
    rintro id hid pm text ⟨broadcastId, data⟩ outcome hruns ⟨hcomma, hnonempty, hspells⟩
      ⟨now, draws, ip, port, rfl⟩
    cases hread : readDatagramETH pm.mode text with
    | error fault =>
        simp only [PeerManagerETH.receive, hread]
        exact ⟨hruns, le_rfl, by simp, by simp, by simp⟩
    | ok read =>
        cases read with
        | none =>
            simp only [PeerManagerETH.receive, hread]
            exact ⟨hruns, le_rfl, by simp, by simp, by simp⟩
        | some read =>
            obtain ⟨msg, data'⟩ := read
            obtain ⟨datagram, hdatagram, hid', hdata⟩ := parse_of_readDatagramETH hread
            obtain ⟨hbroadcast, hdata'⟩ := hspells datagram hdatagram
            obtain rfl : data' = data := hdata.trans hdata'
            have hlogged : net.Runs id
                { pm with msgTable := pm.msgTable.insertReceived now msg } :=
              ⟨hruns.node, hruns.table, hruns.mode⟩
            obtain ⟨hafter, hcount, hcalls⟩ := onReceive_push (broadcastId, data') hid
              hlogged hcomma hnonempty (hid'.trans hbroadcast) hash draws ip port
            simp only [PeerManagerETH.receive, hread]
            exact ⟨hafter, hcount.ge, hcalls, by simp, by simp [hid'.trans hbroadcast]⟩

/-- Payload integrity, for the ring protocol and for gossip in push mode:
whatever is handled under a broadcast id is the data that was broadcast under
it, and nothing else was ever broadcast under that id. -/
theorem handled_data_is_broadcast_data :
    (∀ net : Network, (∀ id ∈ net.ids, IsNumeral id) → ∀ node : Str → PeerManager,
      (∀ id ∈ net.ids, net.Runs id (node id)) → ∀ s, Reachable hgfrrNodes net.ids node s →
      ∀ id broadcastId data, (id, broadcastId, data) ∈ s.handled →
        (broadcastId, data) ∈ s.originated ∧
          ∀ data', (broadcastId, data') ∈ s.originated → data' = data) ∧
    ∀ hash : Str → ℕ, ∀ net : GossipNetwork, (∀ id ∈ net.ids, IsNumeral id) →
      ∀ node : Str → PeerManagerETH, (∀ id ∈ net.ids, net.Runs id (node id)) →
      ∀ s, Reachable (ethNodes hash) net.ids node s →
      ∀ id broadcastId data, (id, broadcastId, data) ∈ s.handled →
        (broadcastId, data) ∈ s.originated ∧
          ∀ data', (broadcastId, data') ∈ s.originated → data' = data := by
  constructor
  · intro net hnumeral node hruns s hrun id broadcastId data hhandled
    exact (hgfrrProvenance net hnumeral).handled_is_originated hruns hrun hhandled
  · intro hash net hnumeral node hruns s hrun id broadcastId data hhandled
    exact (ethProvenance net hnumeral hash).handled_is_originated hruns hrun hhandled

theorem quartet_peers_mem : ∀ peer ∈ [districtNode 1, districtNode 2, districtNode 3],
    peer.id ∈ firstIds 4 := by
  decide

/-- Four nodes of a district that gossip with the last three of them. -/
def quartetNetwork : GossipNetwork where
  ids := {id | id ∈ firstIds 4}
  table _ := [districtNode 1, districtNode 2, districtNode 3]
  length_id := fun _ => length_of_mem_firstIds four_le_singles
  peers_mem := fun _ _ => quartet_peers_mem

def quartetManager (id : Str) : PeerManagerETH :=
  ⟨⟨id, [], 0⟩, quartetNetwork.table id, ⟨[]⟩, [], [], .push, []⟩

/-- What the first node sends to one of the others when it broadcasts. -/
def quartetCall (single : ℕ) : SendCallETH where
  receiver := districtNode single
  msg := ((Message.mkEth (firstRegionId 0 ++ setw 16 0) [] (firstRegionId 0) []).setTTL
    2).setReceiverId (firstRegionId single)
  data := "a,b|c".toList

theorem isNumeral_of_mem_firstIds {n : ℕ} {id : Str} (h : id ∈ firstIds n) : IsNumeral id := by
  obtain ⟨single, _, rfl⟩ := List.mem_map.mp h
  refine List.forall_mem_append.mpr ⟨fun c hc => ?_, isNumeral_setw 9 single⟩
  rw [(List.mem_replicate.mp hc).2]
  rfl

/-- A broadcast that a node hands to itself, and one that travels as a
datagram. -/
theorem handled_data_is_broadcast_data_instance :
    (∃ s, Reachable hgfrrNodes pairNetwork.ids pairNetwork.manager s ∧
      (firstRegionId 0, firstRegionId 0 ++ setw 16 0, "a,b|c".toList) ∈ s.handled ∧
      ∀ data', (firstRegionId 0 ++ setw 16 0, data') ∈ s.originated → data' = "a,b|c".toList) ∧
    ∃ s, Reachable (ethNodes List.length) quartetNetwork.ids quartetManager s ∧
      (firstRegionId 1, firstRegionId 0 ++ setw 16 0, "a,b|c".toList) ∈ s.handled ∧
      ∀ data', (firstRegionId 0 ++ setw 16 0, data') ∈ s.originated → data' = "a,b|c".toList := by
  constructor
  · have hfirst : firstRegionId 0 ∈ pairNetwork.ids := show _ ∈ firstIds 2 by decide
    have hstart : Reachable hgfrrNodes pairNetwork.ids pairNetwork.manager _ := .refl
    have hbroadcast := hstart.originate hfirst (firstRegionId 0 ++ setw 16 0, "a,b|c".toList) _
      ⟨0, by decide, rfl⟩
    have hself := hbroadcast.perform hfirst _ 0 _ rfl ⟨0, 0, rfl⟩
    refine ⟨_, hself, by decide +kernel, fun data' hdata' => ?_⟩
    exact ((handled_data_is_broadcast_data.1 pairNetwork (fun _ => isNumeral_of_mem_firstIds) _
      (fun _ _ => ⟨rfl, rfl⟩) _ hself (firstRegionId 0) (firstRegionId 0 ++ setw 16 0)
      "a,b|c".toList (by decide +kernel)).2 data' hdata')
  · have hfirst : firstRegionId 0 ∈ quartetNetwork.ids := show _ ∈ firstIds 4 by decide
    have hsecond : firstRegionId 1 ∈ quartetNetwork.ids := show _ ∈ firstIds 4 by decide
    have hstart : Reachable (ethNodes List.length) quartetNetwork.ids quartetManager _ := .refl
    have hbroadcast := hstart.originate hfirst (firstRegionId 0 ++ setw 16 0, "a,b|c".toList) _
      ⟨[0, 1, 2], 2, by decide, rfl⟩
    have hsent := hbroadcast.perform hfirst (quartetCall 1)
      ↑[(firstRegionId 0, quartetCall 2), (firstRegionId 0, quartetCall 3)] _ rfl ⟨0, rfl⟩
    have hreceived := hsent.receive hsecond _ _ List.mem_cons_self ⟨0, [0, 1, 2], [], 0, rfl⟩
    refine ⟨_, hreceived, by decide +kernel, fun data' hdata' => ?_⟩
    exact ((handled_data_is_broadcast_data.2 List.length quartetNetwork
      (fun _ => isNumeral_of_mem_firstIds) _ (fun _ _ => ⟨rfl, rfl, rfl⟩) _ hreceived
      (firstRegionId 1) (firstRegionId 0 ++ setw 16 0) "a,b|c".toList (by decide +kernel)).2
      data' hdata')

end Hgfrr
