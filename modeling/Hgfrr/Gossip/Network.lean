import Hgfrr.Foundation.Mail
import Hgfrr.Wire.IntegrityEth

/-!
# Gossip over addressed datagrams

Every node has a socket of its own, so that replies find their way back. A
handler of a gossip peer manager runs to its end before the next one begins.
What it sends is in flight from then on.
-/

namespace Hgfrr

open Emission

/-- The address of a socket. -/
abbrev Address := Str × ℕ

/-- A finite gossip network whose nodes are numbered and have sockets of their
own. -/
structure GossipHosts extends GossipNetwork where
  numeral : ∀ id ∈ ids, IsNumeral id
  finite : ids.Finite
  address : Str → Address
  address_inj : Set.InjOn address ids

/-- A peer manager of a node, in whatever state its logs and counters are. -/
structure GossipHosts.Hosts (net : GossipHosts) (mode : GossipMode) (id : Str)
    (pm : PeerManagerETH) : Prop where
  node : pm.node = ⟨id, (net.address id).1, (net.address id).2⟩
  table : pm.nodeTable = net.table id
  mode : pm.mode = mode

/-- A datagram in flight. `chain` is not part of it. It records the nodes that
the broadcast came through, the last one first. -/
structure Packet where
  source : Address
  target : Address
  text : Str
  chain : List Str
deriving DecidableEq, Repr

/-- The broadcast id that a receiver reads. -/
def Packet.broadcastId (packet : Packet) : Option Str :=
  match parseDatagramETH packet.text with
  | .ok datagram => some datagram.broadcastId
  | .error _ => none

/-- A new broadcast: the id it gets, and what `broadcast` is called with. -/
structure BroadcastETH where
  id : Str
  data : Str
  ttl : ℤ
deriving DecidableEq, Repr

/-- One execution of the sending part of `broadcast`, and the nodes that the
broadcast came through before. -/
structure FanOut where
  broadcastId : Str
  chain : List Str
deriving DecidableEq, Repr

namespace PeerManagerETH

variable (pm : PeerManagerETH)

def address : Address := (pm.node.ip, pm.node.port)

/-- Carry out calls of `send` in order. -/
def sendAll (pm : PeerManagerETH) (clock : ℕ → ℤ) (chain : List Str) :
    List SendCallETH → PeerManagerETH × List Packet
  | [] => (pm, [])
  | call :: calls =>
      let (pm', ip, port, text) := pm.send (clock 0) call
      let (pm'', packets) := pm'.sendAll (fun n => clock (n + 1)) chain calls
      (pm'', ⟨pm.address, (ip, port), text, pm.node.id :: chain⟩ :: packets)

/-- The broadcast id under which `receive` calls `broadcast`, if it does. -/
def fanOut (text : Str) : Option Str :=
  match readDatagramETH pm.mode text with
  | .ok (some (msg, _)) =>
      match hopDelay msg.senderId pm.node.id, pm.mode with
      | .error _, _ => none
      | .ok _, .pull => if msg.type = 2 then some msg.broadcastId else none
      | .ok _, .push =>
          if msg.broadcastId ∈ pm.broadcastedMsgsAllNodes then none else some msg.broadcastId
  | _ => none

end PeerManagerETH

namespace PeerManagerETH

variable (pm : PeerManagerETH) (hash : Str → ℕ) (draws : List ℕ) (clock : ℕ → ℤ)

/-- All of a call of `broadcast` for new data. -/
def begins (task : BroadcastETH) : Mail.Outcome PeerManagerETH Packet FanOut :=
  let called := pm.broadcast hash draws task.data task.ttl []
  let posted := called.1.sendAll clock [] called.2.emitted
  ⟨posted.1, posted.2, [⟨task.id, []⟩]⟩

/-- All of a call of `receive`. -/
def takesIn (now : ℤ) (packet : Packet) : Mail.Outcome PeerManagerETH Packet FanOut :=
  let called := pm.receive hash now draws packet.source.1 packet.source.2 packet.text
  let posted := called.1.sendAll clock packet.chain called.2.emitted
  ⟨posted.1, posted.2, (pm.fanOut packet.text).toList.map (⟨·, packet.chain⟩)⟩

end PeerManagerETH

/-- What a gossip peer manager does: start a new broadcast, and `receive`. -/
def gossipNodes (hash : Str → ℕ) : Mail.Behaviour PeerManagerETH BroadcastETH Packet FanOut where
  begins pm task outcome := task.id = pm.numbered 16 pm.broadcastedMsgs.length ∧
    ∃ draws clock, outcome = pm.begins hash draws clock task
  receives pm packet outcome := ∃ draws clock now,
    outcome = pm.takesIn hash draws clock now packet

/-- A packet goes to the node at its target, in the states that `admits`
allows. -/
def GossipHosts.rules (net : GossipHosts) (admits : PeerManagerETH → Packet → Prop)
    (duplicates : Prop) : Mail.Rules Str PeerManagerETH Packet where
  members := net.ids
  addressed packet id := net.address id = packet.target
  admits := admits
  duplicates := duplicates

/-- A network that may lose, copy and reorder packets. -/
def GossipHosts.unreliable (net : GossipHosts) : Mail.Rules Str PeerManagerETH Packet :=
  net.rules (fun _ _ => True) True

/-- A network that delivers each packet at most once. -/
def GossipHosts.withoutCopies (net : GossipHosts) : Mail.Rules Str PeerManagerETH Packet :=
  net.rules (fun _ _ => True) False

/-! ## What is posted -/

section Posting

variable {pm : PeerManagerETH} {clock : ℕ → ℤ} {chain : List Str} {calls : List SendCallETH}

/-- A packet made from a call of `send`. -/
def PeerManagerETH.Posts (pm : PeerManagerETH) (chain : List Str) (call : SendCallETH)
    (packet : Packet) : Prop :=
  ∃ n, packet = ⟨pm.address, (call.receiver.ip, call.receiver.port),
    pm.dataString call.receiver (pm.numbered 24 n) call.msg call.data, pm.node.id :: chain⟩

theorem sendAll_state (pm : PeerManagerETH) (clock : ℕ → ℤ) (chain : List Str)
    (calls : List SendCallETH) : (pm.sendAll clock chain calls).1 =
      { pm with msgTable := (pm.sendAll clock chain calls).1.msgTable } := by
  induction calls generalizing pm clock with
  | nil => rfl
  | cons call calls ih =>
      have hrest := ih (pm.send (clock 0) call).1 fun n => clock (n + 1)
      exact hrest

theorem posts_sendAll (pm : PeerManagerETH) (clock : ℕ → ℤ) (chain : List Str)
    (calls : List SendCallETH) :
    List.Forall₂ (pm.Posts chain) calls (pm.sendAll clock chain calls).2 := by
  induction calls generalizing pm clock with
  | nil => exact .nil
  | cons call calls ih =>
      have hrest := ih (pm.send (clock 0) call).1 fun n => clock (n + 1)
      exact .cons ⟨_, rfl⟩ hrest

theorem posts_of_mem_sendAll {packet : Packet}
    (h : packet ∈ (pm.sendAll clock chain calls).2) :
    ∃ call ∈ calls, pm.Posts chain call packet := by
  have hposts := posts_sendAll pm clock chain calls
  generalize (pm.sendAll clock chain calls).2 = packets at h hposts
  induction hposts with
  | nil => cases h
  | cons hhead _ ih =>
      rcases List.mem_cons.mp h with rfl | h
      · exact ⟨_, List.mem_cons_self, hhead⟩
      · obtain ⟨call, hcall, hposts⟩ := ih h
        exact ⟨call, List.mem_cons_of_mem _ hcall, hposts⟩

theorem length_sendAll (pm : PeerManagerETH) (clock : ℕ → ℤ) (chain : List Str)
    (calls : List SendCallETH) : (pm.sendAll clock chain calls).2.length = calls.length :=
  (posts_sendAll pm clock chain calls).length_eq.symm

end Posting

/-! ## A district of fifteen nodes

The smallest network in which every node knows as many others as a routing
table holds. -/

theorem value_firstRegionId (single : ℕ) : Decimal.value (firstRegionId single) = single := by
  rw [Decimal.value, firstRegionId, Nat.ofDigitChars_append, Nat.ofDigitChars_replicate_zero,
    Nat.mul_zero]
  exact Decimal.value_padded 9 single

def districtAddress (id : Str) : Address := ("127.0.0.1".toList, 5000 + Decimal.value id)

theorem districtAddress_injOn (n : ℕ) : Set.InjOn districtAddress {id | id ∈ firstIds n} := by
  intro id hid other hother heq
  obtain ⟨first, _, rfl⟩ := List.mem_map.mp hid
  obtain ⟨second, _, rfl⟩ := List.mem_map.mp hother
  obtain ⟨_, hport⟩ := Prod.mk.inj heq
  rw [value_firstRegionId, value_firstRegionId] at hport
  exact congrArg firstRegionId (Nat.add_left_cancel hport)

/-- All other nodes, the next one first. -/
def gossipTable (id : Str) : List Node :=
  ((List.range 15).filter (fun n => n = Decimal.value id + 1) ++
    (List.range 15).filter fun n =>
      n ≠ Decimal.value id ∧ n ≠ Decimal.value id + 1).map districtNode

def gossipDistrict : GossipHosts where
  ids := {id | id ∈ firstIds 15}
  table := gossipTable
  length_id := fun _ => length_of_mem_firstIds (by omega)
  peers_mem := by
    intro id _ peer hpeer
    obtain ⟨n, hn, rfl⟩ := List.mem_map.mp hpeer
    have hrange : n ∈ List.range 15 := by
      rcases List.mem_append.mp hn with hn | hn <;> exact List.mem_of_mem_filter hn
    exact List.mem_map_of_mem (f := firstRegionId) hrange
  numeral := fun _ => isNumeral_of_mem_firstIds
  finite := List.finite_toSet _
  address := districtAddress
  address_inj := districtAddress_injOn 15

/-- A peer manager that has just been made. -/
def newManagerETH (mode : GossipMode) (id : Str) : PeerManagerETH where
  node := ⟨id, (districtAddress id).1, (districtAddress id).2⟩
  nodeTable := gossipTable id
  msgTable := ⟨[]⟩
  broadcastedMsgs := []
  broadcastedMsgsAllNodes := []
  mode := mode
  dataMap := []

/-- A step of a run in the district: a node starts a broadcast, or takes in the
packet at a position of those in flight. -/
inductive GossipMove
  | begin (single : ℕ) (data : Str) (ttl : ℤ) (draws : List ℕ)
  | deliver (index single : ℕ) (draws : List ℕ)

abbrev GossipRecord := Mail.Record Str PeerManagerETH BroadcastETH Packet FanOut

/-- Carry out a step, if the rules allow it. -/
def gossipMove (hash : Str → ℕ) (admits : PeerManagerETH → Packet → Prop)
    [∀ pm packet, Decidable (admits pm packet)] (record : GossipRecord) :
    GossipMove → Option GossipRecord
  | .begin single data ttl draws =>
      let id := firstRegionId single
      let pm := record.node id
      let task := ⟨pm.numbered 16 pm.broadcastedMsgs.length, data, ttl⟩
      if single < 15 then
        some ((record.after id (pm.begins hash draws (fun _ => 0) task)).noting id task)
      else none
  | .deliver index single draws =>
      let id := firstRegionId single
      let pm := record.node id
      match record.flight[index]? with
      | some packet =>
          if single < 15 ∧ districtAddress id = packet.target ∧ admits pm packet then
            some ((record.without index).after id (pm.takesIn hash draws (fun _ => 0) 0 packet))
          else none
      | none => none

/-- Carry out a run of the district. -/
def gossipRun (hash : Str → ℕ) (mode : GossipMode) (admits : PeerManagerETH → Packet → Prop)
    [∀ pm packet, Decidable (admits pm packet)] (moves : List GossipMove) : Option GossipRecord :=
  moves.foldlM (gossipMove hash admits) ⟨newManagerETH mode, [], [], [], []⟩

theorem reachable_gossipRun {hash : Str → ℕ} {mode : GossipMode}
    {admits : PeerManagerETH → Packet → Prop} [∀ pm packet, Decidable (admits pm packet)]
    (duplicates : Prop) {moves : List GossipMove} {record : GossipRecord}
    (h : gossipRun hash mode admits moves = some record) :
    Mail.Reachable (gossipNodes hash) (gossipDistrict.rules admits duplicates)
      (newManagerETH mode) record.situation := by
  have hmember : ∀ {single}, single < 15 → firstRegionId single ∈ gossipDistrict.ids :=
    fun hlt => List.mem_map_of_mem (f := firstRegionId) (List.mem_range.mpr hlt)
  induction moves using List.reverseRecOn generalizing record with
  | nil =>
      obtain rfl := Option.some.inj h
      exact .refl
  | append_singleton moves move ih =>
      rw [gossipRun, List.foldlM_append, Option.bind_eq_bind, Option.bind_eq_some_iff] at h
      obtain ⟨before, hbefore, h⟩ := h
      simp only [List.foldlM_cons, List.foldlM_nil, Option.bind_eq_bind, Option.pure_def,
        Option.bind_fun_some] at h
      have hrun := ih hbefore
      cases move with
      | begin single data ttl draws =>
          simp only [gossipMove] at h
          split at h
          next hlt =>
            obtain rfl := Option.some.inj h
            exact Mail.Record.reachable_begin hrun (hmember hlt) ⟨rfl, draws, fun _ => 0, rfl⟩
          next => cases h
      | deliver index single draws =>
          simp only [gossipMove] at h
          split at h
          next packet hpacket =>
            split at h
            next hallowed =>
              obtain rfl := Option.some.inj h
              exact Mail.Record.reachable_deliver hrun (hmember hallowed.1) hpacket hallowed.2.1
                hallowed.2.2 ⟨draws, fun _ => 0, 0, rfl⟩
            next => cases h
          next => cases h

theorem hosts_newManagerETH (mode : GossipMode) (id : Str) :
    gossipDistrict.Hosts mode id (newManagerETH mode id) := ⟨rfl, rfl, rfl⟩

end Hgfrr
