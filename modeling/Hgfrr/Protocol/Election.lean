import Hgfrr.Protocol.Broadcast
import Hgfrr.Protocol.InRing
import Hgfrr.Protocol.Payload

/-!
# Election results

The result of an election goes through the same routine as data does, which sets
the type of every message to 2 or 5. No message of an election type reaches a
ring, so no member is told.
-/

namespace Hgfrr

open Emission

/-- Messages of type 3 or 4 under a broadcast id, for a given receiver. -/
def SendCall.Elects (id broadcastId : Str) (call : SendCall) : Prop :=
  call.receiver.id = id ∧ call.msg.broadcastId = broadcastId ∧
    (call.msg.type = 3 ∨ call.msg.type = 4)

instance (id broadcastId : Str) : DecidablePred (SendCall.Elects id broadcastId) := fun call =>
  inferInstanceAs (Decidable (call.receiver.id = id ∧ call.msg.broadcastId = broadcastId ∧
    (call.msg.type = 3 ∨ call.msg.type = 4)))

/-- The receiver of a message handles it, and may fail. What it has sent by then
stays sent. -/
def Network.Emits (net : Network) (call : SendCall) (outs : List SendCall) : Prop :=
  ∃ pm rand arrived, net.Runs call.receiver.id pm ∧ call.ArrivesAs arrived ∧
    (pm.onReceive rand arrived.msg arrived.data arrived.sentIds).emitted = outs

/-- Every other member of a ring has handled one message of an election type, and
the one that ran the election has handled none. -/
def ToldOnce (cfg : Cascade.Config SendCall) (peers : List Str) (x broadcastId : Str) : Prop :=
  (∀ y ∈ peers, y ≠ x → cfg.handled.countP (SendCall.Elects y broadcastId) = 1) ∧
    cfg.handled.countP (SendCall.Elects x broadcastId) = 0

instance (cfg : Cascade.Config SendCall) (peers : List Str) (x broadcastId : Str) :
    Decidable (ToldOnce cfg peers x broadcastId) :=
  inferInstanceAs (Decidable ((∀ y ∈ peers, y ≠ x →
    cfg.handled.countP (SendCall.Elects y broadcastId) = 1) ∧
      cfg.handled.countP (SendCall.Elects x broadcastId) = 0))

/-- The broadcast id of the message to the ring below. It comes after the one of
the ring and, if there are contact nodes, the one of their multicast. -/
def PeerManager.lowerElectionId (pm : PeerManager) (level : ℕ) : Str :=
  match pm.nodeTable.getContactNodes level with
  | .ok [] => pm.numbered 16 (pm.broadcastedMsgs.length + 1)
  | _ => pm.numbered 16 (pm.broadcastedMsgs.length + 2)

/-- What the election of contact nodes at a level should amount to, in the ring of
that level and in the one below. -/
def Network.ElectionReaches (net : Network) (pm : PeerManager) (level : ℕ) (peers : List Str)
    (x : Str) (cfg : Cascade.Config SendCall) : Prop :=
  ToldOnce cfg peers x (pm.numbered 16 pm.broadcastedMsgs.length) ∧
    (1 ≤ level → ∀ lower, net.SharedRing (level - 1) lower → x ∈ lower →
      ToldOnce cfg lower x (pm.lowerElectionId level))

section Types

variable {pm : PeerManager} {data : Str} {call : SendCall} {level : ℕ} {sentIds : List Str}

/-- In a ring every message gets type 2 or 5. -/
theorem type_of_broadcastWithinRing {msg : Message} {k : ℕ}
    (h : call ∈ (pm.broadcastWithinRing msg level k data sentIds).emitted) :
    call.msg.type = 2 ∨ call.msg.type = 5 := by
  obtain ⟨⟨steps, sentIdsForReceivers⟩, _, h⟩ := mem_emitted_ofExcept h
  obtain ⟨routine, hroutine, h⟩ := mem_emitted_sequence h
  obtain ⟨step, _, rfl⟩ := List.mem_map.mp hroutine
  obtain ⟨call', hcall', h⟩ := mem_emitted_ofExcept h
  obtain rfl : call = call' := by simpa using h
  unfold PeerManager.sendStep at hcall'
  obtain ⟨receiver, _, hcall'⟩ := Except.bind_eq_ok.mp hcall'
  split at hcall' <;> obtain ⟨idLower, _, hcall'⟩ := Except.bind_eq_ok.mp hcall' <;>
    obtain rfl := Except.ok.inj hcall'
  · exact Or.inr rfl
  · dsimp only [Message.setType_type]
    split
    · exact Or.inr rfl
    · exact Or.inl rfl

theorem type_of_broadcastUp {msg : Message} {rand : ℕ}
    (h : call ∈ (pm.broadcastUp rand msg level data).emitted) :
    call.msg.type = msg.type ∨ call.msg.type = 2 ∨ call.msg.type = 5 := by
  obtain ⟨contactNodes, _, h⟩ := mem_emitted_ofExcept h
  split at h
  next => exact Or.inr (type_of_broadcastWithinRing h)
  next =>
    split at h
    next => simp at h
    next receiver _ =>
      obtain rfl : call = _ := by simpa using h
      exact Or.inl rfl

/-- A relay upwards asks for a level, types 0 and 1. -/
def Relay.AsksOrRings : Relay → Prop
  | .up msg _ => msg.type = 0 ∨ msg.type = 1
  | .withinRing _ _ _ => True

theorem asksOrRings_controlFlow {msg : Message} {messageId : Str} {relays : List Relay}
    (h : pm.controlFlow msg messageId sentIds = .ok relays) :
    ∀ relay ∈ relays, relay.AsksOrRings := by
  have hdown : ∀ levels, ∀ relay ∈ pm.downwards msg messageId levels, relay.AsksOrRings := by
    intro levels relay hrelay
    obtain ⟨_, _, rfl⟩ := List.mem_map.mp hrelay
    trivial
  unfold PeerManager.controlFlow at h
  dsimp only at h
  split at h
  · split at h
    next =>
      obtain rfl := Except.ok.inj h
      simp [Relay.AsksOrRings]
    next =>
      obtain ⟨upper, _, h⟩ := Except.bind_eq_ok.mp h
      split at h <;> obtain rfl := Except.ok.inj h
      · exact List.forall_mem_cons.mpr ⟨trivial, hdown _⟩
      · simp [Relay.AsksOrRings]
  · split at h
    next =>
      obtain rfl := Except.ok.inj h
      simp [Relay.AsksOrRings]
    next =>
      obtain ⟨upper, _, h⟩ := Except.bind_eq_ok.mp h
      split at h <;> obtain rfl := Except.ok.inj h
      · exact List.forall_mem_cons.mpr ⟨trivial, hdown _⟩
      · simp [Relay.AsksOrRings]
  · obtain rfl := Except.ok.inj h
    exact List.forall_mem_cons.mpr ⟨trivial, hdown _⟩
  · obtain rfl := Except.ok.inj h
    simp [Relay.AsksOrRings]
  · split at h <;> obtain rfl := Except.ok.inj h <;> simp [Relay.AsksOrRings]
  · obtain rfl := Except.ok.inj h
    simp

/-- No handler sends a message of an election type. -/
theorem type_of_onReceive {rand : ℕ} {msg : Message}
    (h : call ∈ (pm.onReceive rand msg data sentIds).emitted) :
    call.msg.type ≠ 3 ∧ call.msg.type ≠ 4 := by
  obtain ⟨_, _, h⟩ := mem_emitted_ofExcept h
  obtain ⟨relays, hrelays, h⟩ := mem_emitted_ofExcept h
  obtain ⟨routine, hroutine, h⟩ := mem_emitted_sequence h
  obtain ⟨relay, hrelay, rfl⟩ := List.mem_map.mp hroutine
  have hkind := asksOrRings_controlFlow hrelays relay hrelay
  cases relay with
  | up msg level =>
      have htype := type_of_broadcastUp h
      simp only [Relay.AsksOrRings] at hkind
      omega
  | withinRing msg level sentIds =>
      have htype := type_of_broadcastWithinRing h
      omega

end Types

section Elections

variable {net : Network} {pm : PeerManager} {level : ℕ} {draws : List ℕ} {call : SendCall}

/-- The only messages of an election type are those of the multicast to contact
nodes, which has an id of its own. -/
theorem elects_of_contactNodeElection
    (h : call ∈ (pm.contactNodeElection draws level).2.emitted)
    (htype : call.msg.type = 3 ∨ call.msg.type = 4) :
    call.msg.broadcastId = pm.numbered 16 (pm.broadcastedMsgs.length + 1) ∧
      ∃ contact rest, pm.nodeTable.getContactNodes level = .ok (contact :: rest) := by
  have hring : ∀ (pm' : PeerManager) (msg : Message) (level : ℕ) (data : Str),
      call ∉ (pm'.broadcastWithinRing msg level 2 data []).emitted := by
    intro pm' msg level data hmem
    have := type_of_broadcastWithinRing hmem
    omega
  unfold PeerManager.contactNodeElection at h
  split at h
  next => simp at h
  next =>
    simp only [PeerManager.electionSteps, sequenceOn] at h
    rcases mem_emitted_andThenOn h with hmem | h
    · exact absurd hmem (hring _ _ _ _)
    rcases mem_emitted_andThenOn h with hmem | h
    · dsimp only [PeerManager.announceElection] at hmem
      split at hmem
      next => simp at hmem
      next contactNodes hcontacts =>
        split at hmem
        next hne =>
          obtain ⟨receivers, _, hmem⟩ := mem_emitted_ofExcept hmem
          obtain ⟨receiver, _, rfl⟩ := List.mem_map.mp hmem
          obtain ⟨contact, rest, rfl⟩ := List.exists_cons_of_length_pos (Nat.pos_of_ne_zero hne)
          exact ⟨by simp [PeerManager.numbered], contact, rest, hcontacts⟩
        next => simp at hmem
    rcases mem_emitted_andThenOn h with hmem | hmem
    · dsimp only [PeerManager.announceElection] at hmem
      split at hmem
      next => exact absurd hmem (hring _ _ _ _)
      next => simp at hmem
    · simp at hmem

theorem numbered_injective (pm : PeerManager) {m n : ℕ} (h : pm.numbered 16 m = pm.numbered 16 n) :
    m = n :=
  Decimal.padded_injective 16 (List.append_cancel_left h)

/-- In every run of an election, messages of an election type only come from the
multicast to contact nodes. -/
theorem Network.elects_of_reachable {cfg : Cascade.Config SendCall}
    (hrun : Cascade.Reachable net.Emits ((pm.contactNodeElection draws level).2.emitted :
      Multiset SendCall) cfg) :
    ∀ m ∈ cfg.handled, m.msg.type = 3 ∨ m.msg.type = 4 →
      m.msg.broadcastId = pm.numbered 16 (pm.broadcastedMsgs.length + 1) ∧
        ∃ contact rest, pm.nodeTable.getContactNodes level = .ok (contact :: rest) := by
  let good (m : SendCall) : Prop := m.msg.type = 3 ∨ m.msg.type = 4 →
    m.msg.broadcastId = pm.numbered 16 (pm.broadcastedMsgs.length + 1) ∧
      ∃ contact rest, pm.nodeTable.getContactNodes level = .ok (contact :: rest)
  have hstep : ∀ m outs, good m → net.Emits m outs → ∀ o ∈ outs, good o := by
    rintro m outs _ ⟨pm', rand, arrived, _, _, rfl⟩ o ho htype
    obtain ⟨hthree, hfour⟩ := type_of_onReceive ho
    omega
  have hall : (∀ m ∈ cfg.inFlight, good m) ∧ ∀ m ∈ cfg.handled, good m :=
    hrun.all_messages (fun m hm => elects_of_contactNodeElection (Multiset.mem_coe.mp hm)) hstep
  exact hall.2

/-- Nobody handles a message of an election type for the ring, or for the ring
below. -/
theorem Network.countP_elects {cfg : Cascade.Config SendCall}
    (hrun : Cascade.Reachable net.Emits ((pm.contactNodeElection draws level).2.emitted :
      Multiset SendCall) cfg) (y : Str) :
    cfg.handled.countP (SendCall.Elects y (pm.numbered 16 pm.broadcastedMsgs.length)) = 0 ∧
      cfg.handled.countP (SendCall.Elects y (pm.lowerElectionId level)) = 0 := by
  constructor
  · refine List.countP_eq_zero.mpr fun m hm helects => ?_
    obtain ⟨_, hid, htype⟩ := of_decide_eq_true helects
    have hother := (net.elects_of_reachable hrun m hm htype).1
    have := numbered_injective pm (hid.symm.trans hother)
    omega
  · refine List.countP_eq_zero.mpr fun m hm helects => ?_
    obtain ⟨_, hid, htype⟩ := of_decide_eq_true helects
    obtain ⟨hother, contact, rest, hcontacts⟩ := net.elects_of_reachable hrun m hm htype
    rw [PeerManager.lowerElectionId, hcontacts] at hid
    have := numbered_injective pm (hid.symm.trans hother)
    omega

end Elections

/-- Whoever runs the election, on whatever ring of four members or more, and in
whatever order messages are delivered: the other members are never told. -/
theorem election_never_reaches_ring {net : Network} {level : ℕ} {peers : List Str}
    (hshared : net.SharedRing level peers) (hlength : 4 ≤ peers.length) (x : Str)
    (pm : PeerManager) (draws : List ℕ) {cfg : Cascade.Config SendCall}
    (hrun : Cascade.Reachable net.Emits ((pm.contactNodeElection draws level).2.emitted :
      Multiset SendCall) cfg) : ¬net.ElectionReaches pm level peers x cfg := by
  rintro ⟨⟨htold, _⟩, _⟩
  obtain ⟨y, hy, hne⟩ : ∃ y ∈ peers, y ≠ x := by
    by_contra hall
    push Not at hall
    have hsame : peers = List.replicate peers.length x :=
      List.eq_replicate_iff.mpr ⟨rfl, hall⟩
    have hnodup := hshared.nodup
    rw [hsame, List.nodup_replicate] at hnodup
    omega
  have hzero := (net.countP_elects hrun y).1
  rw [htold y hy hne] at hzero
  exact one_ne_zero hzero

/-- A district of four nodes, all of them contact nodes, that also form the ring
of the city. -/
def fourNetwork : Network := districtNetwork 4 4 (by omega) le_rfl

theorem fourNetwork_sharedRing : fourNetwork.SharedRing 1 (firstIds 4) := by
  refine ⟨nodup_firstIds 4, fun x hx => ⟨hx, districtRing 1 4 4, ?_, districtRing_peerIds 1 4 4⟩⟩
  simp [Network.ringOf, fourNetwork, districtNetwork, districtTable, hx]

/-- The whole of an election on the ring of the city, run by the first node. -/
def fourElection : Cascade.Config SendCall :=
  Cascade.execute (fourNetwork.handle fun _ => 0) 40
    ((fourNetwork.manager (firstRegionId 0)).contactNodeElection [0, 1, 2] 1).2.emitted

theorem fourElection_reachable : Cascade.Reachable fourNetwork.Emits
    (((fourNetwork.manager (firstRegionId 0)).contactNodeElection [0, 1, 2] 1).2.emitted :
      Multiset SendCall) fourElection :=
  Cascade.reachable_execute (fun _ => True) (fun m _ =>
    ⟨⟨fourNetwork.manager m.receiver.id, 0, m, ⟨rfl, rfl⟩, .refl m, rfl⟩, fun _ _ => trivial⟩) 40
    fun _ _ => trivial

theorem election_never_reaches_ring_four :
    ¬fourNetwork.ElectionReaches (fourNetwork.manager (firstRegionId 0)) 1 (firstIds 4)
      (firstRegionId 0) fourElection :=
  election_never_reaches_ring fourNetwork_sharedRing (by decide) (firstRegionId 0) _ [0, 1, 2]
    fourElection_reachable

/-- When all messages of that election have been delivered, the second member has
handled no message of an election type. -/
theorem election_second_member_not_told :
    fourNetwork.SharedRing 1 (firstIds 4) ∧ Cascade.Reachable fourNetwork.Emits
        (((fourNetwork.manager (firstRegionId 0)).contactNodeElection [0, 1, 2] 1).2.emitted :
          Multiset SendCall) fourElection ∧
      fourElection.inFlight = 0 ∧ firstRegionId 1 ∈ fourElection.handled.map (·.receiver.id) ∧
      ¬fourNetwork.ElectionReaches (fourNetwork.manager (firstRegionId 0)) 1 (firstIds 4)
        (firstRegionId 0) fourElection := by
  refine ⟨fourNetwork_sharedRing, fourElection_reachable, by decide +kernel, by decide +kernel, ?_⟩
  rintro ⟨htold, _⟩
  have hnot : ¬ToldOnce fourElection (firstIds 4) (firstRegionId 0)
      ((fourNetwork.manager (firstRegionId 0)).numbered 16 0) := by
    decide +kernel
  exact hnot htold

end Hgfrr
