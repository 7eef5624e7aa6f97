import Hgfrr.Wire.IntegrityEth

/-!
# Gossip datagrams and back

Six fields that end in a comma, then the data as they are. In push mode a datagram
without hops left is dropped before it is logged.
-/

namespace Hgfrr

theorem toString_eq_zero_iff {z : ℤ} (h : FitsInt z) : toString z = ['0'] ↔ z = 0 := by
  constructor
  · intro heq
    have hzero : stoi ['0'] = .ok 0 := by decide
    exact Except.ok.inj ((stoi_toString h).symm.trans (heq ▸ hzero))
  · rintro rfl
    decide

namespace SendCallETH

variable (pm : PeerManagerETH) (call : SendCallETH)

/-- The message that arrives when `pm` has sent `call`. -/
def arriving : Message :=
  ((Message.mkEth call.msg.broadcastId pm.nextMessageId pm.node.id call.receiver.id).setTTL
    call.msg.ttl).setType call.msg.type

variable {pm call}

/-- What the reader makes of the datagram of a call. -/
theorem read_dataString (hsender : ',' ∉ pm.node.id) (hreceiver : ',' ∉ call.receiver.id)
    (hbroadcast : ',' ∉ call.msg.broadcastId) (htype : FitsInt call.msg.type)
    (httl : FitsInt call.msg.ttl) (mode : GossipMode) :
    readDatagramETH mode (pm.dataString call.receiver pm.nextMessageId call.msg call.data) =
      .ok (if mode = .push ∧ call.msg.ttl = 0 then none
        else some (call.arriving pm, call.data)) := by
  rw [readDatagramETH, parseDatagramETH_dataString call.data hsender hreceiver hbroadcast
    (PeerManagerETH.comma_not_mem_nextMessageId hsender), stoi_toString htype]
  simp only [bind, Except.bind, pure, Except.pure, stoi_toString httl, toString_eq_zero_iff httl,
    and_comm (a := mode = .push)]
  split <;> rfl

end SendCallETH

/-- Round trip of the gossip protocol: whoever receives the datagram of a call of `send`
handles the ids, type, hops and data of that call, under a new message id. In push mode
a datagram without hops left changes nothing. -/
theorem receiveETH_sendETH {pm : PeerManagerETH} {call : SendCallETH} (hsender : ',' ∉ pm.node.id)
    (hreceiver : ',' ∉ call.receiver.id) (hbroadcast : ',' ∉ call.msg.broadcastId)
    (htype : FitsInt call.msg.type) (httl : FitsInt call.msg.ttl) (now : ℤ) :
    ∃ pm' text, pm.send now call = (pm', call.receiver.ip, call.receiver.port, text) ∧
      ∀ (receiver : PeerManagerETH) (hash : Str → ℕ) (now' : ℤ) (draws : List ℕ) (ip : Str)
        (port : ℕ), receiver.receive hash now' draws ip port text =
          if receiver.mode = .push ∧ call.msg.ttl = 0 then (receiver, Emission.done)
          else
            let logged := { receiver with
              msgTable := receiver.msgTable.insertReceived now' (call.arriving pm) }
            logged.onReceive hash draws (call.arriving pm) call.data ip port := by
  refine ⟨_, pm.dataString call.receiver pm.nextMessageId call.msg call.data, rfl,
    fun receiver hash now' draws ip port => ?_⟩
  rw [PeerManagerETH.receive, SendCallETH.read_dataString hsender hreceiver hbroadcast htype httl]
  by_cases hdropped : receiver.mode = .push ∧ call.msg.ttl = 0
  · simp only [if_pos hdropped]
  · simp only [if_neg hdropped]

/-- For instance data with commas and bars, a negative type and no hops left. -/
theorem receiveETH_sendETH_instance :
    ∃ pm' text, (quartetManager (firstRegionId 0)).send 7 ⟨districtNode 1,
          ((Message.mkEth (setw 16 0) [] [] []).setType (-4)).setTTL 0, "a,b|,c".toList⟩ =
        (pm', "127.0.0.1".toList, 5001, text) ∧
      ∀ (receiver : PeerManagerETH) (hash : Str → ℕ) (now' : ℤ) (draws : List ℕ) (ip : Str)
        (port : ℕ), receiver.receive hash now' draws ip port text =
          if receiver.mode = .push ∧ (0 : ℤ) = 0 then (receiver, Emission.done)
          else
            let arrived := ((Message.mkEth (setw 16 0) (firstRegionId 0 ++ setw 24 0)
              (firstRegionId 0) (firstRegionId 1)).setTTL 0).setType (-4)
            let logged := { receiver with
              msgTable := receiver.msgTable.insertReceived now' arrived }
            logged.onReceive hash draws arrived "a,b|,c".toList ip port :=
  receiveETH_sendETH (by decide) (by decide) (by decide) (by decide) (by decide) 7

end Hgfrr
