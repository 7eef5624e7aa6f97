import Hgfrr.Gossip.Network

/-!
# The steps of a gossip node

What a node can do about a packet, once for both modes: nothing, ask for data,
hand data out, announce the data that it has received, or push data on.
-/

namespace Hgfrr

open Emission

namespace PeerManagerETH

/-- The packets of one execution of the sending part of `broadcast`. -/
structure FansOut (pm : PeerManagerETH) (hash : Str → ℕ) (data : Str) (ttl : ℤ) (broadcastId : Str)
    (chain : List Str) (packets : List Packet) : Prop where
  length_le : packets.length ≤ numReceiversEth
  posts : ∀ packet ∈ packets, ∃ receiver ∈ pm.nodeTable,
    pm.Posts chain (pm.broadcastTo hash data ttl broadcastId receiver) packet

/-- What a node does about a packet. The log of messages may change as well. -/
inductive Reacts (hash : Str → ℕ) (pm : PeerManagerETH) (packet : Packet) :
    Mail.Outcome PeerManagerETH Packet FanOut → Prop
  | ignores (log : MessageTable) : Reacts hash pm packet ⟨{ pm with msgTable := log }, [], []⟩
  | requests {msg data reply} (log : MessageTable)
      (hread : readDatagramETH pm.mode packet.text = .ok (some (msg, data)))
      (hmode : pm.mode = .pull) (htype : msg.type = 1) (hlacks : pm.dataMap.lookup data = none)
      (hposts : pm.Posts packet.chain (pm.sendRequest
        ⟨msg.senderId, packet.source.1, packet.source.2⟩ data msg.broadcastId) reply) :
      Reacts hash pm packet ⟨{ pm with msgTable := log }, [reply], []⟩
  | replies {msg data reply realData} (log : MessageTable)
      (hread : readDatagramETH pm.mode packet.text = .ok (some (msg, data)))
      (hmode : pm.mode = .pull) (htype : msg.type = 3)
      (hholds : pm.dataMap.lookup (beforeBar data) = some realData)
      (hposts : pm.Posts packet.chain (pm.sendData
        ⟨msg.senderId, packet.source.1, packet.source.2⟩ (data ++ ['|'] ++ realData)
        msg.broadcastId) reply) :
      Reacts hash pm packet ⟨{ pm with msgTable := log }, [reply], []⟩
  | announces {msg data packets} (log : MessageTable)
      (hread : readDatagramETH pm.mode packet.text = .ok (some (msg, data)))
      (hmode : pm.mode = .pull) (htype : msg.type = 2)
      (hfans : pm.FansOut hash (afterBar data) 0 msg.broadcastId packet.chain packets) :
      Reacts hash pm packet
        ⟨{ pm with
            msgTable := log
            dataMap := mapInsert (beforeBar data, afterBar data) pm.dataMap }, packets,
          [⟨msg.broadcastId, packet.chain⟩]⟩
  | relays {msg data packets} (log : MessageTable)
      (hread : readDatagramETH pm.mode packet.text = .ok (some (msg, data)))
      (hmode : pm.mode = .push) (hnew : msg.broadcastId ∉ pm.broadcastedMsgsAllNodes)
      (hfans : pm.FansOut hash data (msg.ttl - 1) msg.broadcastId packet.chain packets) :
      Reacts hash pm packet
        ⟨{ pm with
            msgTable := log
            broadcastedMsgsAllNodes := pm.broadcastedMsgsAllNodes ++ [msg.broadcastId] }, packets,
          [⟨msg.broadcastId, packet.chain⟩]⟩

section Broadcasts

variable {pm : PeerManagerETH} {hash : Str → ℕ} {draws : List ℕ} {data : Str} {ttl : ℤ}
  {broadcastId : Str} {clock : ℕ → ℤ} {chain : List Str}

theorem broadcast_of_ne (pm : PeerManagerETH) (hold : broadcastId ≠ []) :
    pm.broadcast hash draws data ttl broadcastId =
      (pm, Emission.ofExcept (receiverList pm.nodeTable draws) fun receivers =>
        ⟨receivers.map (pm.broadcastTo hash data ttl broadcastId), none⟩) := by
  simp only [broadcast, if_neg hold]

theorem fansOut_sendAll {pm' : PeerManagerETH} (hnode : pm'.node = pm.node)
    (hmode : pm'.mode = pm.mode) :
    pm.FansOut hash data ttl broadcastId chain (pm'.sendAll clock chain
      (Emission.ofExcept (receiverList pm.nodeTable draws) fun receivers =>
        ⟨receivers.map (pm'.broadcastTo hash data ttl broadcastId), none⟩).emitted).2 := by
  constructor
  · rw [length_sendAll]
    cases hreceivers : receiverList pm.nodeTable draws with
    | error fault => exact Nat.zero_le _
    | ok receivers =>
        rw [ofExcept_ok, List.length_map]
        exact (receiverList_eq_ok hreceivers).1
  · intro packet hpacket
    obtain ⟨call, hcall, n, hposts⟩ := posts_of_mem_sendAll hpacket
    obtain ⟨receivers, hreceivers, hcall⟩ := mem_emitted_ofExcept hcall
    obtain ⟨receiver, hreceiver, rfl⟩ := List.mem_map.mp hcall
    refine ⟨receiver, (receiverList_eq_ok hreceivers).2 receiver hreceiver, n, ?_⟩
    have hcall : pm'.broadcastTo hash data ttl broadcastId receiver =
        pm.broadcastTo hash data ttl broadcastId receiver := by
      simp only [broadcastTo, sendInv, sendPull, hnode, hmode]
    rw [hposts, hcall]
    simp only [address, dataString, numbered, hnode]

/-- To start a new broadcast is to note its id and data, and to fan it out. -/
theorem begins_cases {task : BroadcastETH} {outcome : Mail.Outcome PeerManagerETH Packet FanOut}
    (h : (gossipNodes hash).begins pm task outcome) :
    task.id = pm.numbered 16 pm.broadcastedMsgs.length ∧
      (∃ log, outcome.state = { pm with
        msgTable := log
        broadcastedMsgs := pm.broadcastedMsgs ++ [task.id]
        dataMap := mapInsert (toString (hash task.data), task.data) pm.dataMap }) ∧
      outcome.events = [⟨task.id, []⟩] ∧
      pm.FansOut hash task.data task.ttl task.id [] outcome.letters := by
  obtain ⟨hid, draws, clock, rfl⟩ := h
  refine ⟨hid, ?_, rfl, ?_⟩
  · rw [begins, sendAll_state, hid]
    exact ⟨_, rfl⟩
  · simp only [begins, broadcast, if_true, ← hid]
    exact fansOut_sendAll rfl rfl

end Broadcasts

section Receipts

variable {pm : PeerManagerETH} {hash : Str → ℕ} {packet : Packet}
  {outcome : Mail.Outcome PeerManagerETH Packet FanOut}

/-- Everything that `receive` can do about a packet that belongs to some
broadcast. -/
theorem receives_cases (hnonempty : packet.broadcastId ≠ some [])
    (h : (gossipNodes hash).receives pm packet outcome) : Reacts hash pm packet outcome := by
  obtain ⟨draws, clock, now, rfl⟩ := h
  -- with the fields of the manager named, its mode can be replaced everywhere
  obtain ⟨node, nodeTable, log, own, seen, mode, dataMap⟩ := pm
  rw [takesIn]
  cases hread : readDatagramETH mode packet.text with
  | error fault =>
      simp only [receive, hread, fanOut]
      exact .ignores _
  | ok read =>
      cases read with
      | none =>
          simp only [receive, hread, fanOut]
          exact .ignores _
      | some read =>
          obtain ⟨msg, data⟩ := read
          have hold : msg.broadcastId ≠ [] := by
            obtain ⟨datagram, hdatagram, hid, _⟩ := parse_of_readDatagramETH hread
            rintro hempty
            simp [Packet.broadcastId, hdatagram, ← hid, hempty] at hnonempty
          simp only [receive, hread, fanOut, onReceive]
          cases hopDelay msg.senderId node.id with
          | error fault => exact .ignores _
          | ok delay =>
              cases mode with
              | pull =>
                  simp only [onReceivePull]
                  split
                  next htype =>
                    rw [htype, if_neg (show ¬(1 : ℤ) = 2 by decide)]
                    split
                    next => exact .ignores _
                    next hlacks =>
                      have hnone : dataMap.lookup data = none :=
                        Option.not_isSome_iff_eq_none.mp hlacks
                      exact .requests _ hread rfl htype hnone ⟨_, rfl⟩
                  next htype =>
                    rw [htype, if_pos rfl, broadcast_of_ne _ hold, sendAll_state]
                    exact .announces _ hread rfl htype (fansOut_sendAll rfl rfl)
                  next htype =>
                    rw [htype, if_neg (show ¬(3 : ℤ) = 2 by decide)]
                    split
                    next => exact .ignores _
                    next realData hholds => exact .replies _ hread rfl htype hholds ⟨_, rfl⟩
                  next hdata hrequest =>
                    rw [if_neg hdata]
                    exact .ignores _
              | push =>
                  simp only [onReceivePush]
                  split
                  next => exact .ignores _
                  next hnew =>
                    rw [broadcast_of_ne _ hold, sendAll_state]
                    exact .relays _ hread rfl hnew (fansOut_sendAll rfl rfl)

end Receipts

section Fans
variable {pm : PeerManagerETH} {hash : Str → ℕ} {draws : List ℕ} {receivers : List Node}

/-- The calls of `send` that fan a broadcast out: data in push mode, and invitations in
pull mode. -/
def isFanned : GossipMode → SendCallETH → Bool
  | .push, _ => true
  | .pull, call => call.msg.type == 1

theorem broadcastTo_fanned (pm : PeerManagerETH) (data : Str) (ttl : ℤ) (broadcastId : Str)
    (receiver : Node) :
    isFanned pm.mode (pm.broadcastTo hash data ttl broadcastId receiver) = true ∧
      (pm.broadcastTo hash data ttl broadcastId receiver).receiver = receiver ∧
      (pm.broadcastTo hash data ttl broadcastId receiver).msg.broadcastId = broadcastId := by
  unfold isFanned broadcastTo
  cases pm.mode with
  | push => exact ⟨rfl, rfl, rfl⟩
  | pull => exact ⟨rfl, rfl, rfl⟩

/-- A call of `broadcast` under an old id fans out to all the receivers drawn. -/
theorem emitted_broadcast (pm : PeerManagerETH) {data : Str} {ttl : ℤ} {broadcastId : Str}
    (hreceivers : receiverList pm.nodeTable draws = .ok receivers) (hold : broadcastId ≠ []) :
    ((pm.broadcast hash draws data ttl broadcastId).2.emitted.filter (isFanned pm.mode)).map
      (fun call => (call.receiver, call.msg.broadcastId)) = receivers.map (·, broadcastId) := by
  rw [broadcast_of_ne pm hold, hreceivers, Emission.ofExcept_ok]
  dsimp only
  rw [List.filter_eq_self.mpr, List.map_map]
  · exact List.map_congr_left fun receiver _ => Prod.ext
      (broadcastTo_fanned pm data ttl broadcastId receiver).2.1
      (broadcastTo_fanned pm data ttl broadcastId receiver).2.2
  · intro call hcall
    obtain ⟨receiver, _, rfl⟩ := List.mem_map.mp hcall
    exact (broadcastTo_fanned pm data ttl broadcastId receiver).1

/-- The fan-out that a text leads to is the one that `receive` sends, and `receive` sends
no other. -/
theorem emitted_receive_eq_fanOut (hreceivers : receiverList pm.nodeTable draws = .ok receivers)
    {text : Str} (hold : pm.fanOut text ≠ some []) (now : ℤ) (ip : Str) (port : ℕ) :
    ((pm.receive hash now draws ip port text).2.emitted.filter (isFanned pm.mode)).map
        (fun call => (call.receiver, call.msg.broadcastId)) =
      (pm.fanOut text).toList.flatMap fun broadcastId => receivers.map (·, broadcastId) := by
  obtain ⟨node, nodeTable, log, own, seen, mode, dataMap⟩ := pm
  dsimp only at hreceivers
  cases hread : readDatagramETH mode text with
  | error fault => simp [receive, hread, fanOut]
  | ok read =>
      cases read with
      | none => simp [receive, hread, fanOut, Emission.done]
      | some read =>
          obtain ⟨msg, data⟩ := read
          simp only [fanOut, hread] at hold
          simp only [receive, hread, fanOut, onReceive]
          cases hdelay : hopDelay msg.senderId node.id with
          | error fault => simp [Emission.fail]
          | ok delay =>
              rw [hdelay] at hold
              cases mode with
              | pull =>
                  dsimp only at hold ⊢
                  simp only [onReceivePull]
                  split
                  next htype =>
                    rw [htype, if_neg (by decide : ¬(1 : ℤ) = 2)]
                    split <;> rfl
                  next htype =>
                    rw [htype, if_pos rfl, ne_eq, Option.some.injEq] at hold
                    rw [htype, if_pos rfl]
                    exact (emitted_broadcast ⟨node, nodeTable, _, own, seen, .pull, _⟩ hreceivers
                      hold).trans (List.append_nil _).symm
                  next htype =>
                    rw [htype, if_neg (by decide : ¬(3 : ℤ) = 2)]
                    split <;> rfl
                  next hdata _ =>
                    rw [if_neg hdata]
                    rfl
              | push =>
                  dsimp only at hold ⊢
                  simp only [onReceivePush]
                  split
                  next => rfl
                  next hnew =>
                    rw [if_neg hnew, ne_eq, Option.some.injEq] at hold
                    exact (emitted_broadcast ⟨node, nodeTable, _, own, _, .push, dataMap⟩ hreceivers
                      hold).trans (List.append_nil _).symm

end Fans

end PeerManagerETH

end Hgfrr
