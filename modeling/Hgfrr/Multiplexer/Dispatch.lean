import Hgfrr.Model.Peer

/-!
# Dispatch

The sender and the receiver number the commands of their protocols apart. They agree
on the protocols that have more than one number reserved, and only on these.
-/

namespace Hgfrr.Multiplexing

/-- The protocols before that of an id. -/
def before (protocolId : ℕ) (protocols : List Protocol) : List Protocol :=
  protocols.takeWhile fun protocol => protocolId ≠ protocol.protocolId

namespace Peer

variable {protocols : List Protocol} {protocol : Protocol} {protocolId cmdId k maxId : ℕ}

theorem before_cons_of_ne (h : protocolId ≠ protocol.protocolId) :
    before protocolId (protocol :: protocols) = protocol :: before protocolId protocols :=
  List.takeWhile_cons_of_pos (decide_eq_true h)

theorem before_cons_self :
    before protocol.protocolId (protocol :: protocols) = [] :=
  List.takeWhile_cons_of_neg (by simp)

/-- The sender adds up the shifts of the protocols before. -/
theorem rewriteCmdId_eq (protocolId cmdId : ℕ) (protocols : List Protocol) :
    rewriteCmdId protocolId cmdId protocols =
      ((before protocolId protocols).map shift).sum + cmdId := by
  induction protocols generalizing cmdId with
  | nil => exact (Nat.zero_add cmdId).symm
  | cons protocol protocols ih =>
      rw [rewriteCmdId]
      split
      next h =>
        rw [h, before_cons_self]
        exact (Nat.zero_add cmdId).symm
      next h =>
        rw [ih, before_cons_of_ne h, List.map_cons, List.sum_cons]
        omega

theorem mem_of_protocolAt (h : protocolAt cmdId maxId protocols = some (protocol, k)) :
    protocol ∈ protocols := by
  induction protocols generalizing maxId with
  | nil => exact absurd h.symm (Option.some_ne_none _)
  | cons head protocols ih =>
      rw [protocolAt] at h
      split at h
      next =>
        rw [Option.some.injEq, Prod.mk.injEq] at h
        exact h.1 ▸ List.mem_cons_self
      next => exact List.mem_cons_of_mem _ (ih h)

/-- The receiver finds a command at the number after all that are reserved by the
protocols before. -/
theorem protocolAt_eq_some_iff (hnodup : (protocols.map Protocol.protocolId).Nodup)
    (hmem : protocol ∈ protocols) (hk : k ≤ protocol.maxCmdId) (hle : maxId ≤ cmdId) :
    protocolAt cmdId maxId protocols = some (protocol, k) ↔
      cmdId = maxId +
        ((before protocol.protocolId protocols).map fun p => p.maxCmdId + 1).sum + k := by
  induction protocols generalizing maxId with
  | nil => exact absurd hmem List.not_mem_nil
  | cons head protocols ih =>
      rw [List.map_cons, List.nodup_cons] at hnodup
      obtain ⟨hnot, hnodup⟩ := hnodup
      rw [protocolAt]
      rcases List.mem_cons.mp hmem with rfl | hmem
      · rw [before_cons_self, List.map_nil, List.sum_nil]
        split
        next hlt =>
          rw [Option.some.injEq, Prod.mk.injEq, and_iff_right rfl]
          omega
        next hge =>
          refine iff_of_false (fun h => ?_) (by omega)
          -- the protocol is not found again behind its place
          exact hnot (List.mem_map_of_mem (mem_of_protocolAt h))
      · have hne : protocol.protocolId ≠ head.protocolId := fun heq =>
          hnot (heq ▸ List.mem_map_of_mem hmem)
        rw [before_cons_of_ne hne, List.map_cons, List.sum_cons]
        split
        next hlt =>
          refine iff_of_false (fun h => ?_) (by omega)
          rw [Option.some.injEq, Prod.mk.injEq] at h
          exact hne (congrArg Protocol.protocolId h.1.symm)
        next hge =>
          rw [ih hnodup hmem (by omega)]
          omega

/-- A protocol takes up at most the ids up to its highest one. -/
theorem shift_le (protocol : Protocol) : shift protocol ≤ protocol.maxCmdId + 1 := by
  unfold shift
  split
  next => exact Nat.zero_le _
  next => exact le_rfl

/-- A protocol is shifted over in full unless its highest id is zero. -/
theorem shift_eq_iff : shift protocol = protocol.maxCmdId + 1 ↔ protocol.maxCmdId ≠ 0 := by
  unfold shift
  split
  next h => exact iff_of_false (Nat.succ_ne_zero _).symm (not_not.mpr h)
  next h => exact iff_of_true rfl h

/-- The shifts fall behind as soon as one protocol has a single number. -/
theorem sum_shift_eq_iff : (protocols.map shift).sum =
    (protocols.map fun p => p.maxCmdId + 1).sum ↔ ∀ p ∈ protocols, p.maxCmdId ≠ 0 := by
  have hle : ∀ l : List Protocol, (l.map shift).sum ≤ (l.map fun p => p.maxCmdId + 1).sum :=
    fun l => List.sum_le_sum fun p _ => shift_le p
  induction protocols with
  | nil => exact iff_of_true rfl fun _ hp => absurd hp List.not_mem_nil
  | cons head protocols ih =>
      have hhead := shift_le head
      have hrest := hle protocols
      rw [List.forall_mem_cons, ← and_congr shift_eq_iff ih]
      simp only [List.map_cons, List.sum_cons]
      omega

theorem handlePacket_eq_received_iff {peer : Peer} {packet : Packet} :
    peer.handlePacket packet = .received protocol { packet with cmdId := k } ↔
      peer.protocolCmdIdFromPacket packet = .ok (protocol, k) ∧ k ∈ protocol.cmdIds := by
  rw [handlePacket]
  cases peer.protocolCmdIdFromPacket packet with
  | error e => simp
  | ok found =>
      obtain ⟨p, c⟩ := found
      dsimp only
      split
      next hc =>
        rw [Handled.received.injEq, Packet.mk.injEq, Except.ok.injEq, Prod.mk.injEq]
        constructor
        · rintro ⟨rfl, -, rfl, -⟩
          exact ⟨⟨rfl, rfl⟩, hc⟩
        · rintro ⟨⟨rfl, rfl⟩, -⟩
          exact ⟨rfl, rfl, rfl, rfl, rfl⟩
      next hc =>
        refine iff_of_false nofun ?_
        rintro ⟨⟨⟩, hk⟩
        exact hc hk

/-- What is sent is for a registered protocol, with an id of one of its commands. -/
theorem sendPacket_eq_ok {peer : Peer} {packet sent : Packet}
    (h : peer.sendPacket packet = .ok sent) : ∃ protocol ∈ peer.protocols,
      peer.protocols.find? (fun p => packet.protocolId = p.protocolId) = some protocol ∧
      packet.protocolId = protocol.protocolId ∧ packet.cmdId ∈ protocol.cmdIds ∧
      sent = if peer.offsetBasedDispatch then
        { packet with
          protocolId := 0
          cmdId := rewriteCmdId packet.protocolId packet.cmdId peer.protocols }
      else packet := by
  unfold sendPacket at h
  split at h
  next => exact absurd h nofun
  next protocol hfind =>
    split at h
    next => exact absurd h nofun
    next hcmd =>
      have hid : packet.protocolId = protocol.protocolId := by
        simpa using List.find?_some hfind
      refine ⟨protocol, List.mem_of_find?_eq_some hfind, hfind, hid, not_not.mp hcmd, ?_⟩
      split at h
      next hmode =>
        rw [if_pos hmode]
        exact (Except.ok.inj h).symm
      next hmode =>
        rw [if_neg hmode]
        exact (Except.ok.inj h).symm

/-- The receiver finds the command that was sent exactly if the numbers of both agree. -/
theorem protocolCmdIdFromPacket_iff {sender receiver : Peer} {packet sent : Packet}
    (hprotocols : receiver.protocols = sender.protocols)
    (hmode : receiver.offsetBasedDispatch = sender.offsetBasedDispatch)
    (hnodup : (sender.protocols.map Protocol.protocolId).Nodup)
    (hreserved : ∀ p ∈ sender.protocols, ∀ cmdId ∈ p.cmdIds, cmdId ≤ p.maxCmdId)
    (hsent : sender.sendPacket packet = .ok sent) :
    ∃ protocol ∈ sender.protocols, packet.protocolId = protocol.protocolId ∧
      packet.cmdId ∈ protocol.cmdIds ∧
      (receiver.protocolCmdIdFromPacket sent = .ok (protocol, packet.cmdId) ↔
        (sender.offsetBasedDispatch →
          ∀ p ∈ before packet.protocolId sender.protocols, p.maxCmdId ≠ 0)) := by
  obtain ⟨protocol, hmem, hfind, hid, hcmd, rfl⟩ := sendPacket_eq_ok hsent
  refine ⟨protocol, hmem, hid, hcmd, ?_⟩
  rw [protocolCmdIdFromPacket, hmode, hprotocols]
  cases sender.offsetBasedDispatch with
  | false =>
      rw [if_neg Bool.false_ne_true, if_neg Bool.false_ne_true, hfind]
      exact iff_of_true rfl fun h => absurd h Bool.false_ne_true
  | true =>
      rw [if_pos rfl, if_pos rfl]
      refine Iff.trans ?_ (forall_prop_of_true rfl).symm
      rw [← sum_shift_eq_iff]
      -- the receiver looks the number up that the sender has made
      have hfound := protocolAt_eq_some_iff hnodup hmem (hreserved _ hmem _ hcmd)
        (Nat.zero_le (rewriteCmdId packet.protocolId packet.cmdId sender.protocols))
      rw [rewriteCmdId_eq, ← hid, Nat.zero_add, Nat.add_right_cancel_iff] at hfound
      rw [← hfound, rewriteCmdId_eq]
      dsimp only
      split
      next found hat => rw [hat, Except.ok.injEq, Option.some.injEq]
      next hat => exact iff_of_false nofun fun h => Option.some_ne_none _ (h.symm.trans hat)

/-- Between peers that have connected the same protocols in the same order a packet is
received as the command of the protocol that it was sent as, exactly if no protocol
before has only the command 0 reserved, or the protocols have their own ids. -/
theorem received_as_sent_iff {sender receiver : Peer} {packet sent : Packet}
    (hprotocols : receiver.protocols = sender.protocols)
    (hmode : receiver.offsetBasedDispatch = sender.offsetBasedDispatch)
    (hnodup : (sender.protocols.map Protocol.protocolId).Nodup)
    (hreserved : ∀ p ∈ sender.protocols, ∀ cmdId ∈ p.cmdIds, cmdId ≤ p.maxCmdId)
    (hsent : sender.sendPacket packet = .ok sent) :
    (∃ protocol ∈ sender.protocols, packet.protocolId = protocol.protocolId ∧
        receiver.handlePacket sent = .received protocol { sent with cmdId := packet.cmdId }) ↔
      (sender.offsetBasedDispatch →
        ∀ p ∈ before packet.protocolId sender.protocols, p.maxCmdId ≠ 0) := by
  obtain ⟨protocol, hmem, hid, hcmd, hiff⟩ :=
    protocolCmdIdFromPacket_iff hprotocols hmode hnodup hreserved hsent
  rw [← hiff]
  constructor
  · rintro ⟨p, hp, heq, hreceived⟩
    -- no other protocol has the id
    obtain rfl := List.inj_on_of_nodup_map hnodup hp hmem (heq.symm.trans hid)
    exact (handlePacket_eq_received_iff.mp hreceived).1
  · intro hfound
    exact ⟨protocol, hmem, hid, handlePacket_eq_received_iff.mpr ⟨hfound, hcmd⟩⟩

theorem received_as_sent_two :
    (∃ protocol ∈ [Protocol.mk 0 15 [2, 3], ⟨1, 7, [0, 4]⟩], 1 = protocol.protocolId ∧
        Peer.handlePacket ⟨[⟨0, 15, [2, 3]⟩, ⟨1, 7, [0, 4]⟩], true⟩ ⟨0, 20, [5], false⟩ =
          .received protocol ⟨0, 4, [5], false⟩) ↔
      (true → ∀ p ∈ before 1 [⟨0, 15, [2, 3]⟩, ⟨1, 7, [0, 4]⟩], p.maxCmdId ≠ 0) :=
  @received_as_sent_iff ⟨[⟨0, 15, [2, 3]⟩, ⟨1, 7, [0, 4]⟩], true⟩ _ ⟨1, 4, [5], false⟩ _ rfl rfl
    (by decide) (by decide) rfl

end Peer

end Hgfrr.Multiplexing
