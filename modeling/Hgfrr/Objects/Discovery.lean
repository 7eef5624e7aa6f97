import Hgfrr.Model.Discovery
import Hgfrr.Topology.IdOrder

/-!
# What a receiver makes of a ping

Ids have 32 digits, so the character at which the receiver looks for the command is the
ninth digit of the sender's id. Whether that digit is odd decides if a datagram is taken
for a ping, and its next bit if it is taken for a pong of a node with the first eight
digits for an id.
-/

namespace Hgfrr

/-- The digit of an id behind the first eight. -/
def ninthDigit (id : Str) : ℕ := (id.getD 8 '0').toNat - '0'.toNat

namespace Store

/-- The nodes after a pong of the node at a pointer. -/
def afterPong (store : Store) (pointer : Pointer) (now : ℤ) : Store :=
  match pointer with
  | some ref => store.setLastPongNow ref now
  | none => store

/-- A time that the node does not have tells where a pong went. -/
theorem afterPong_ne (store : Store) (ref : ℕ) {other : Pointer} (hne : other ≠ some ref) :
    ∃ now, store.afterPong (some ref) now ≠ store.afterPong other now := by
  refine ⟨(store.object ref).lastPong + 1, fun heq => ?_⟩
  have hpong := congrArg (fun after => (after.object ref).lastPong) heq
  cases other with
  | none => simp [afterPong, setLastPongNow] at hpong
  | some other =>
      have hother : ref ≠ other := fun hsame => hne (congrArg some hsame.symm)
      simp [afterPong, setLastPongNow, Function.update_of_ne hother] at hpong

theorem afterPong_eq_iff (store : Store) {left right : Pointer} :
    (∀ now, store.afterPong left now = store.afterPong right now) ↔ left = right := by
  refine ⟨fun h => ?_, fun h now => h ▸ rfl⟩
  by_contra hne
  cases left with
  | some ref =>
      obtain ⟨now, hnow⟩ := store.afterPong_ne ref (Ne.symm hne)
      exact hnow (h now)
  | none =>
      obtain ⟨ref, rfl⟩ := Option.ne_none_iff_exists'.mp (Ne.symm hne)
      obtain ⟨now, hnow⟩ := store.afterPong_ne ref hne
      exact hnow (h now).symm

end Store

namespace Discovery

/-- What the receiver does with a datagram, by the digit that it takes for the command. -/
theorem receive_of_isIdText {table : ObjectTable} {store : Store} {id : Str} (hid : IsIdText id)
    (command : Char) (ip : Str) (port : ℕ) (now : ℤ) :
    receive table store ip port (id ++ [command]) now =
      if ninthDigit id % 2 = 1 then .ok (receivePing table store ip port)
      else if ninthDigit id % 4 = 2 then receivePong table store (id.take 8) now
      else .ok ⟨[], store⟩ := by
  have hlen := hid.length
  obtain ⟨digit, hdigit⟩ : ∃ digit, id[8]? = some digit :=
    ⟨id[8], List.getElem?_eq_getElem (by omega)⟩
  have hcmd : (id ++ [command])[8]? = some digit := by
    rw [List.getElem?_append_left (by omega), hdigit]
  have hsub : substr (id ++ [command]) 0 8 = .ok (id.take 8) := by
    rw [substr_of_le (Nat.zero_le _), List.drop_zero, List.take_append_of_le_length (by omega)]
  have hrest : substrFrom (id ++ [command]) 9 = .ok ((id ++ [command]).drop 9) :=
    if_pos (by simp [hlen])
  have hninth : ninthDigit id = digit.toNat - 48 := by
    rw [ninthDigit, List.getD_eq_getElem?_getD, hdigit]
    rfl
  obtain ⟨hlow, hhigh⟩ := Decimal.toNat_of_isDigit (hid.digits digit (List.mem_of_getElem? hdigit))
  have hping : hasCommand digit cmdPing = decide (ninthDigit id % 2 = 1) := by
    rw [hninth, hasCommand, cmdPing]
    generalize digit.toNat = code at hlow hhigh
    interval_cases code <;> rfl
  have hpong : hasCommand digit cmdPong =
      decide (ninthDigit id % 4 = 2 ∨ ninthDigit id % 4 = 3) := by
    rw [hninth, hasCommand, cmdPong]
    generalize digit.toNat = code at hlow hhigh
    interval_cases code <;> rfl
  simp only [receive, Packet.unpack, hsub, hcmd, hrest, bind, Except.bind, hping, hpong,
    decide_eq_true_eq]
  split
  next => rfl
  next heven =>
    have hfour : (ninthDigit id % 4 = 2 ∨ ninthDigit id % 4 = 3) ↔ ninthDigit id % 4 = 2 := by
      omega
    simp only [hfour]
    rfl

variable {table : ObjectTable} {store : Store} {ring : RingObjects} {rest : List RingObjects}

theorem receivePong_eq (htable : table.tables = ring :: rest) (id : Str) (now : ℤ) :
    receivePong table store id now = .ok ⟨[], store.afterPong (ring.getNode id) now⟩ := by
  have hring : table.ringUnchecked 0 = .ok ring := by
    rw [ObjectTable.ringUnchecked, htable]
    rfl
  simp only [receivePong, ObjectTable.hasNode, ObjectTable.setNodeLastPongNow, ObjectTable.getNode,
    hring, Except.map, bind, Except.bind]
  split
  next => cases ring.getNode id <;> rfl
  next hnot =>
    rw [Bool.or_eq_true, not_or, Option.not_isSome_iff_eq_none,
      Option.not_isSome_iff_eq_none] at hnot
    rw [RingObjects.getNode, hnot.1, hnot.2]
    rfl

/-- A pong is not answered. -/
theorem sent_receivePong {id : Str} {now : ℤ} {effect : Effect}
    (h : receivePong table store id now = .ok effect) : effect.sent = [] := by
  obtain ⟨known, _, h⟩ := Except.bind_eq_ok.mp h
  split at h
  next =>
    obtain ⟨after, _, h⟩ := Except.bind_eq_ok.mp h
    obtain rfl := Except.ok.inj h
    rfl
  next =>
    obtain rfl := Except.ok.inj h
    rfl

/-- A ping is one datagram, whatever node it is for. -/
theorem sendPing_sent (htable : table.tables = ring :: rest) (id ip : Str) (port : ℕ) (now : ℤ) :
    ∃ after, sendPing table store id ip port now =
      .ok ⟨[⟨ip, port, table.selfId ++ [cmdPing]⟩], after⟩ := by
  have hring : table.ringUnchecked 0 = .ok ring := by
    rw [ObjectTable.ringUnchecked, htable]
    rfl
  simp only [sendPing, ObjectTable.hasNode, ObjectTable.setNodeLastPingNow, ObjectTable.getNode,
    hring, Except.map, bind, Except.bind]
  split
  next => cases ring.getNode id <;> exact ⟨_, rfl⟩
  next => exact ⟨store, rfl⟩

end Discovery

/-- B answers A's ping with one pong, and no node changes. -/
def PingUnderstood (a b : ObjectTable) (storeA storeB : Store) : Prop :=
  ∀ id ip port now effect, Discovery.sendPing a storeA id ip port now = .ok effect →
    ∀ datagram ∈ effect.sent, ∀ ipA portA received,
      Discovery.receive b storeB ipA portA datagram.data received =
        .ok ⟨[⟨ipA, portA, b.selfId ++ [Discovery.cmdPong]⟩], storeB⟩

/-- B's pong sets the time of B in A's ring if it has B, and nothing else. -/
def PongUnderstood (a b : ObjectTable) (ring : RingObjects) (storeA storeB : Store) : Prop :=
  ∀ ip port, ∀ datagram ∈ (Discovery.sendPong b storeB ip port).sent, ∀ ipB portB received,
    ∃ sent, Discovery.receive a storeA ipB portB datagram.data received =
      .ok ⟨sent, storeA.afterPong (ring.getNode b.selfId) received⟩

open Discovery

section Understood

variable {a b : ObjectTable} {ring : RingObjects} {rest : List RingObjects} (storeA storeB : Store)

theorem pingUnderstood_iff (ha : IsIdText a.selfId) (htable : a.tables = ring :: rest) :
    PingUnderstood a b storeA storeB ↔ ninthDigit a.selfId % 2 = 1 := by
  constructor
  · intro h
    obtain ⟨after, hping⟩ := sendPing_sent htable [] [] 0 0
    have hreceived := h [] [] 0 0 _ hping _ List.mem_cons_self [] 0 0
    rw [receive_of_isIdText ha] at hreceived
    by_contra heven
    rw [if_neg heven] at hreceived
    split at hreceived
    next => exact absurd (sent_receivePong hreceived) (List.cons_ne_nil _ _)
    next => simp at hreceived
  · intro hodd id ip port now effect hping datagram hdatagram ipA portA received
    obtain ⟨after, hsent⟩ := sendPing_sent htable id ip port now
    obtain rfl := Except.ok.inj (hsent.symm.trans hping)
    obtain rfl := List.mem_singleton.mp hdatagram
    rw [receive_of_isIdText ha, if_pos hodd]
    rfl

/-- The pointer of the node that a pong is taken for. -/
def RingObjects.takenFor (ring : RingObjects) (id : Str) : Pointer :=
  if ninthDigit id % 4 = 2 then ring.getNode (id.take 8) else none

theorem receive_sendPong (store : Store) (hb : IsIdText b.selfId) (htable : a.tables = ring :: rest)
    (ip : Str) (port : ℕ) (now : ℤ) :
    ∃ sent, receive a store ip port (b.selfId ++ [cmdPong]) now =
      .ok ⟨sent, store.afterPong (ring.takenFor b.selfId) now⟩ := by
  rw [receive_of_isIdText hb, RingObjects.takenFor]
  split
  next hodd =>
    rw [if_neg (by omega)]
    exact ⟨_, rfl⟩
  next =>
    split
    next =>
      rw [receivePong_eq htable]
      exact ⟨[], rfl⟩
    next => exact ⟨[], rfl⟩

theorem pongUnderstood_iff (hb : IsIdText b.selfId) (htable : a.tables = ring :: rest) :
    PongUnderstood a b ring storeA storeB ↔
      ring.takenFor b.selfId = ring.getNode b.selfId := by
  rw [← storeA.afterPong_eq_iff]
  constructor
  · intro h now
    obtain ⟨sent, hsent⟩ := h [] 0 _ List.mem_cons_self [] 0 now
    obtain ⟨sent', hsent'⟩ := receive_sendPong storeA hb htable [] 0 now
    exact congrArg Effect.store (Except.ok.inj (hsent'.symm.trans hsent))
  · intro h ip port datagram hdatagram ipB portB received
    obtain rfl := List.mem_singleton.mp hdatagram
    rw [← h]
    exact receive_sendPong storeA hb htable ipB portB received

end Understood

/-- Pings are understood when the ninth digit of the sender is odd. Pongs are understood when
the sender is not in the ring or taken for a node with the same pointer. -/
theorem pingPong_understood_iff (a b : ObjectTable) (ring : RingObjects) (rest : List RingObjects)
    (htable : a.tables = ring :: rest) (ha : IsIdText a.selfId) (hb : IsIdText b.selfId)
    (storeA storeB : Store) :
    (PingUnderstood a b storeA storeB ↔ ninthDigit a.selfId % 2 = 1) ∧
      (PongUnderstood a b ring storeA storeB ↔
        ring.getNode b.selfId =
          if ninthDigit b.selfId % 4 = 2 then ring.getNode (b.selfId.take 8) else none) :=
  ⟨pingUnderstood_iff storeA storeB ha htable,
    (pongUnderstood_iff storeA storeB hb htable).trans eq_comm⟩

/-- An id whose only digit other than zero is the last one. -/
def lastDigitId (digit : Char) : Str := List.replicate 31 '0' ++ [digit]

/-- The ring of two nodes, at the references 0 and 1. -/
def pairRing : RingObjects where
  ringLevel := 0
  contactNodes := [(lastDigitId '0', some 0)]
  predecessor := some 1
  successor := some 1
  peerSet := [(lastDigitId '0', some 0), (lastDigitId '1', some 1)]
  peerList := [some 0, some 1]

/-- The objects of the two nodes, which have not been pinged. -/
def pairStore : Store where
  size := 2
  object ref := ⟨⟨lastDigitId (Nat.digitChar ref), "127.0.0.1".toList, 7000 + ref⟩, 0, 0⟩

theorem isIdText_lastDigitId {digit : Char} (hdigit : digit.isDigit) :
    IsIdText (lastDigitId digit) := by
  refine ⟨by simp [lastDigitId], fun c hc => ?_⟩
  rcases List.mem_append.mp hc with hzero | hlast
  · rw [List.eq_of_mem_replicate hzero]
    rfl
  · exact List.mem_singleton.mp hlast ▸ hdigit

theorem pingPong_understood_pair :
    (PingUnderstood ⟨lastDigitId '0', [pairRing]⟩ ⟨lastDigitId '1', [pairRing]⟩
        pairStore pairStore ↔ ninthDigit (lastDigitId '0') % 2 = 1) ∧
      (PongUnderstood ⟨lastDigitId '0', [pairRing]⟩ ⟨lastDigitId '1', [pairRing]⟩ pairRing
        pairStore pairStore ↔ pairRing.getNode (lastDigitId '1') =
          if ninthDigit (lastDigitId '1') % 4 = 2 then
            pairRing.getNode ((lastDigitId '1').take 8)
          else none) :=
  pingPong_understood_iff ⟨lastDigitId '0', [pairRing]⟩ ⟨lastDigitId '1', [pairRing]⟩ pairRing []
    rfl (isIdText_lastDigitId rfl) (isIdText_lastDigitId rfl) pairStore pairStore

/-- Neither of two neighbours understands the other. -/
theorem pingPong_not_understood :
    ¬PingUnderstood ⟨lastDigitId '0', [pairRing]⟩ ⟨lastDigitId '1', [pairRing]⟩
        pairStore pairStore ∧
      pairRing.getNode (lastDigitId '1') = some 1 ∧
      ¬PongUnderstood ⟨lastDigitId '0', [pairRing]⟩ ⟨lastDigitId '1', [pairRing]⟩ pairRing
        pairStore pairStore := by
  have hping := pingUnderstood_iff (a := ⟨lastDigitId '0', [pairRing]⟩)
    (b := ⟨lastDigitId '1', [pairRing]⟩) pairStore pairStore (isIdText_lastDigitId rfl) rfl
  have hpong := pongUnderstood_iff (a := ⟨lastDigitId '0', [pairRing]⟩)
    (b := ⟨lastDigitId '1', [pairRing]⟩) pairStore pairStore (isIdText_lastDigitId rfl) rfl
  rw [hping, hpong]
  exact ⟨by decide, by decide, by decide⟩

end Hgfrr
