import Hgfrr.Protocol.RingPass

/-!
# Networks and their overlays

A network assigns a node table to every node. Its overlay keeps what the
broadcast depends on: for each node and level the ids of the peers and of the
contact nodes, and whose single id is all zeros. Handling a message of the
protocol is a reaction of the overlay: it never fails, whatever the tables say.
-/

namespace Hgfrr

/-- The single id of a node is all zeros. -/
def hasZeroSingle (id : Str) : Bool := (id.drop 23).take 9 = zeroSingle

/-- A call of `send` arrives at its receiver with a new message id and new log
fields, and with the sent ids in any order. Everything else is as sent. -/
structure SendCall.ArrivesAs (call arrived : SendCall) : Prop where
  receiver : arrived.receiver = call.receiver
  broadcastId : arrived.msg.broadcastId = call.msg.broadcastId
  type : arrived.msg.type = call.msg.type
  nodeOrder : arrived.msg.nodeOrder = call.msg.nodeOrder
  fromLevel : arrived.msg.fromLevel = call.msg.fromLevel
  senderId : arrived.msg.senderId = call.msg.senderId
  receiverId : arrived.msg.receiverId = call.msg.receiverId
  data : arrived.data = call.data
  sentIds : ∀ sentId, sentId ∈ arrived.sentIds ↔ sentId ∈ call.sentIds

theorem SendCall.ArrivesAs.refl (call : SendCall) : call.ArrivesAs call :=
  ⟨rfl, rfl, rfl, rfl, rfl, rfl, rfl, rfl, fun _ => Iff.rfl⟩

/-- Nodes with ids of 32 characters, each with its table, that know only each
other. -/
structure Network where
  ids : Set Str
  table : Str → NodeTable
  length_id : ∀ id ∈ ids, id.length = 32
  hasRings : ∀ id ∈ ids, (table id).HasRings
  peers_mem : ∀ id ∈ ids, ∀ ring ∈ (table id).tables, ∀ peer ∈ ring.peerIds, peer ∈ ids
  contacts_mem : ∀ id ∈ ids, ∀ ring ∈ (table id).tables, ∀ contact ∈ ring.contactIds,
    contact ∈ ids

namespace Network

variable (net : Network)

/-- The ring that a node keeps at a level. -/
def ringOf (id : Str) (level : ℕ) : Option Ring := (net.table id).tables[level]?

/-- The view of the rings that the broadcast depends on. -/
def overlay : Overlay Str where
  ring id level := (net.ringOf id level).map fun ring => ⟨ring.peerIds, ring.contactIds⟩
  represents := hasZeroSingle

/-- A peer manager of a node, in whatever state its log and counters are. -/
def Runs (id : Str) (pm : PeerManager) : Prop := pm.node.id = id ∧ pm.nodeTable = net.table id

/-- A peer manager of a node before its first message. -/
def manager (id : Str) : PeerManager := ⟨⟨id, [], 0⟩, net.table id, ⟨[]⟩, []⟩

/-- A message in flight is handled by its receiver. -/
def React (call : SendCall) (outs : List SendCall) : Prop :=
  ∃ pm rand arrived, net.Runs call.receiver.id pm ∧ call.ArrivesAs arrived ∧
    pm.onReceive rand arrived.msg arrived.data arrived.sentIds = ⟨outs, none⟩

/-- No handler of the receiver fails on a call, whatever its random value and
the state of its log. -/
def NeverFails (call : SendCall) : Prop :=
  ∀ pm rand arrived, net.Runs call.receiver.id pm → call.ArrivesAs arrived →
    (pm.onReceive rand arrived.msg arrived.data arrived.sentIds).failure = none

end Network

/-- The message of the overlay that a call of `send` stands for. Type 0 asks
for the level after its own. -/
def SendCall.hop (call : SendCall) : Hop Str :=
  match call.msg.type with
  | 0 => .climb call.receiver.id (call.msg.fromLevel + 1)
  | 1 => .climb call.receiver.id call.msg.fromLevel
  | 2 => .ring call.receiver.id call.msg.fromLevel call.msg.nodeOrder.toNat true
  | _ => .ring call.receiver.id call.msg.fromLevel call.msg.nodeOrder.toNat false

/-- What holds of every call in the cascade of a broadcast. -/
structure Routine (net : Network) (call : SendCall) : Prop where
  receiver_mem : call.receiver.id ∈ net.ids
  sender_length : call.msg.senderId.length = 32
  kind : (call.msg.type = 0 ∧ call.msg.fromLevel + 1 < 6) ∨
    (call.msg.type = 1 ∧ call.msg.fromLevel < 6) ∨
    ((call.msg.type = 2 ∨ call.msg.type = 5) ∧ call.msg.fromLevel < 6 ∧ 0 ≤ call.msg.nodeOrder)

theorem SendCall.ArrivesAs.hop_eq {call arrived : SendCall} (h : call.ArrivesAs arrived) :
    arrived.hop = call.hop := by
  simp only [SendCall.hop, h.type, h.receiver, h.fromLevel, h.nodeOrder]

theorem SendCall.ArrivesAs.routine {net : Network} {call arrived : SendCall}
    (h : call.ArrivesAs arrived) (hcall : Routine net call) : Routine net arrived where
  receiver_mem := h.receiver ▸ hcall.receiver_mem
  sender_length := h.senderId ▸ hcall.sender_length
  kind := by
    rw [h.type, h.fromLevel, h.nodeOrder]
    exact hcall.kind

namespace Network

variable {net : Network} {id : Str} {level : ℕ} {ring : Ring}

theorem mem_tables_of_ringOf (h : net.ringOf id level = some ring) :
    ring ∈ (net.table id).tables := List.mem_of_getElem? h

theorem level_lt_six (hid : id ∈ net.ids) (h : net.ringOf id level = some ring) : level < 6 := by
  have hle := (net.hasRings id hid).le
  have hlt := (List.getElem?_eq_some_iff.mp h).1
  omega

theorem overlay_ring_of_none (h : net.ringOf id level = none) :
    net.overlay.ring id level = none := by
  simp [overlay, h]

theorem overlay_ring_of_some (h : net.ringOf id level = some ring) :
    net.overlay.ring id level = some ⟨ring.peerIds, ring.contactIds⟩ := by
  simp [overlay, h]

theorem exists_ring_of_overlay {view : RingView Str} (h : net.overlay.ring id level = some view) :
    ∃ ring, net.ringOf id level = some ring ∧ view = ⟨ring.peerIds, ring.contactIds⟩ := by
  obtain ⟨ring, hring, rfl⟩ := Option.map_eq_some_iff.mp h
  exact ⟨ring, hring, rfl⟩

theorem peer_mem (hid : id ∈ net.ids) (h : net.ringOf id level = some ring) {peer : Node}
    (hpeer : peer ∈ ring.peerList) : peer.id ∈ net.ids :=
  net.peers_mem id hid ring (mem_tables_of_ringOf h) peer.id (List.mem_map_of_mem hpeer)

/-- Every draw gives a contact node. -/
theorem exists_contact (hlen : 0 < ring.contactNodes.length) (rand : ℕ) :
    ∃ entry, ring.contactNodes[rand % ring.contactNodes.length]? = some entry ∧
      entry.2.id ∈ ring.contactIds := by
  obtain ⟨entry, hentry⟩ : ∃ entry,
      ring.contactNodes[rand % ring.contactNodes.length]? = some entry :=
    ⟨_, List.getElem?_eq_getElem (Nat.mod_lt _ hlen)⟩
  have hmem := List.mem_of_getElem? hentry
  exact ⟨entry, hentry, List.mem_map_of_mem (f := fun entry => entry.2.id) hmem⟩

/-- Levels are contiguous: without a ring there is none above. -/
theorem ringOf_succ_of_none (h : net.ringOf id level = none) :
    net.ringOf id (level + 1) = none := by
  simp only [ringOf, List.getElem?_eq_none_iff] at h ⊢
  omega

theorem isContactNode_eq (hid : id ∈ net.ids) (level : ℕ) :
    (net.table id).isContactNode level = (net.ringOf id level).isSome :=
  (net.hasRings id hid).isContactNode_eq

/-- The contact nodes that a node looks up are those of the overlay. -/
theorem getContactNodes_eq (hid : id ∈ net.ids) (level : ℕ) :
    ∃ nodes, (net.table id).getContactNodes level = .ok nodes ∧
      nodes.map Node.id = net.overlay.contactsAt id level := by
  cases hring : net.ringOf id level with
  | none =>
      refine ⟨[], (net.hasRings id hid).getContactNodes_of_none hring, ?_⟩
      simp [Overlay.contactsAt, overlay_ring_of_none hring]
  | some ring =>
      refine ⟨_, (net.hasRings id hid).getContactNodes_of_some hring, ?_⟩
      simp [Overlay.contactsAt, overlay_ring_of_some hring, Ring.contactIds]

end Network

/-! ## A network of one district

The first nodes of a district are its contact nodes. They form a ring of the
city, which has no other districts, and are the contact nodes of that too. -/

/-- The id of a node in the first region of every level. -/
def firstRegionId (single : ℕ) : Str := List.replicate 23 '0' ++ setw 9 single

/-- The first `n` ids of that region. -/
def firstIds (n : ℕ) : List Str := (List.range n).map firstRegionId

theorem firstRegionId_injective : Function.Injective firstRegionId := fun _ _ h =>
  Decimal.padded_injective 9 (List.append_cancel_left h)

theorem nodup_firstIds (n : ℕ) : (firstIds n).Nodup :=
  List.nodup_range.map firstRegionId_injective

theorem mem_firstIds_of_le {m n : ℕ} (h : m ≤ n) {id : Str} (hid : id ∈ firstIds m) :
    id ∈ firstIds n := by
  obtain ⟨single, hsingle, rfl⟩ := List.mem_map.mp hid
  have hlt := List.mem_range.mp hsingle
  exact List.mem_map_of_mem (List.mem_range.mpr (by omega))

theorem length_of_mem_firstIds {n : ℕ} (hn : n ≤ 10 ^ 9) {id : Str} (hid : id ∈ firstIds n) :
    id.length = 32 := by
  obtain ⟨single, hsingle, rfl⟩ := List.mem_map.mp hid
  have hlt := List.mem_range.mp hsingle
  have hlen : (setw 9 single).length = 9 := Decimal.length_padded (by omega) (by omega)
  rw [firstRegionId, List.length_append, List.length_replicate, hlen]

def districtNode (single : ℕ) : Node := ⟨firstRegionId single, "127.0.0.1".toList, 5000 + single⟩

def districtRing (level peers contacts : ℕ) : Ring where
  ringLevel := level
  contactNodes := (List.range contacts).map fun single =>
    (firstRegionId single, districtNode single)
  predecessor := none
  successor := none
  peerSet := (List.range peers).map fun single => (firstRegionId single, districtNode single)
  peerList := (List.range peers).map districtNode

@[simp] theorem districtRing_peerIds (level peers contacts : ℕ) :
    (districtRing level peers contacts).peerIds = firstIds peers := by
  simp [Ring.peerIds, districtRing, firstIds, Function.comp_def, districtNode]

@[simp] theorem districtRing_contactIds (level peers contacts : ℕ) :
    (districtRing level peers contacts).contactIds = firstIds contacts := by
  simp [Ring.contactIds, districtRing, firstIds, Function.comp_def, districtNode]

def districtTable (peers contacts : ℕ) (id : Str) : NodeTable where
  selfId := id
  tables := districtRing 0 peers contacts ::
    if id ∈ firstIds contacts then [districtRing 1 contacts contacts] else []

theorem mem_districtTable {peers contacts : ℕ} {id : Str} {ring : Ring}
    (h : ring ∈ (districtTable peers contacts id).tables) :
    ring = districtRing 0 peers contacts ∨ ring = districtRing 1 contacts contacts := by
  rcases List.mem_cons.mp h with rfl | h
  · exact Or.inl rfl
  · split at h
    next => exact Or.inr (List.mem_singleton.mp h)
    next => cases h

/-! The last segment of an id has room for these. -/

theorem two_le_singles : 2 ≤ 10 ^ 9 := by omega

theorem three_le_singles : 3 ≤ 10 ^ 9 := by omega

theorem four_le_singles : 4 ≤ 10 ^ 9 := by omega

def districtNetwork (peers contacts : ℕ) (hpeers : peers ≤ 10 ^ 9) (hcontacts : contacts ≤ peers) :
    Network where
  ids := {id | id ∈ firstIds peers}
  table := districtTable peers contacts
  length_id := fun _ hid => length_of_mem_firstIds hpeers hid
  hasRings := fun id _ => ⟨by simp [districtTable], by
    simp only [districtTable]
    split <;> simp⟩
  peers_mem := by
    intro id _ ring hring peer hpeer
    rcases mem_districtTable hring with rfl | rfl
    · simpa using hpeer
    · exact mem_firstIds_of_le hcontacts (by simpa using hpeer)
  contacts_mem := by
    intro id _ ring hring contact hcontact
    refine mem_firstIds_of_le hcontacts ?_
    rcases mem_districtTable hring with rfl | rfl <;> simpa using hcontact

/-- A district of two nodes, both of them contact nodes. -/
def pairNetwork : Network := districtNetwork 2 2 two_le_singles le_rfl

/-- A peer manager of one of the two nodes before its first message. -/
def pairManager (single : ℕ) : PeerManager :=
  ⟨districtNode single, districtTable 2 2 (firstRegionId single), ⟨[]⟩, []⟩

theorem pairNetwork_runs (single : ℕ) :
    pairNetwork.Runs (firstRegionId single) (pairManager single) := ⟨rfl, rfl⟩

section Levels

theorem levelToId_ok {level : ℕ} (h : level < 6) :
    ∃ start length, levelToId level = .ok (start, length) ∧ start ≤ 32 := by
  interval_cases level <;> exact ⟨_, _, rfl, by omega⟩

/-- A segment that two texts share is whole in one if it is in the other. -/
theorem le_length_of_segment_eq {s t : Str} {pos len : ℕ} (hpos : 0 < len)
    (heq : (s.drop pos).take len = (t.drop pos).take len) (ht : pos + len ≤ t.length) :
    pos + len ≤ s.length := by
  have hlength := congrArg List.length heq
  simp only [List.length_take, List.length_drop] at hlength
  omega

/-- A sender id that is too short differs before it ends. -/
theorem hopDelay_ok (senderId : Str) {receiverId : Str} (hreceiver : 23 ≤ receiverId.length) :
    ∃ delay, hopDelay senderId receiverId = .ok delay := by
  have hsubstr {s : Str} {pos : ℕ} (len : ℕ) (h : pos ≤ s.length) :
      substr s pos len = .ok ((s.drop pos).take len) := substr_of_le h
  have hown {pos : ℕ} (len : ℕ) (h : pos ≤ 18) :
      substr receiverId pos len = .ok ((receiverId.drop pos).take len) := substr_of_le (by omega)
  unfold hopDelay
  simp only [hown _ (by omega : 0 ≤ 18), hsubstr _ (Nat.zero_le senderId.length), bind,
    Except.bind]
  split
  next => exact ⟨_, rfl⟩
  next h₀ =>
    have hlen := le_length_of_segment_eq (by omega) (not_not.mp h₀) (by omega)
    simp only [hown _ (by omega : 3 ≤ 18), hsubstr _ (by omega : 3 ≤ senderId.length)]
    split
    next => exact ⟨_, rfl⟩
    next h₃ =>
      have hlen := le_length_of_segment_eq (by omega) (not_not.mp h₃) (by omega)
      simp only [hown _ (by omega : 7 ≤ 18), hsubstr _ (by omega : 7 ≤ senderId.length)]
      split
      next => exact ⟨_, rfl⟩
      next h₇ =>
        have hlen := le_length_of_segment_eq (by omega) (not_not.mp h₇) (by omega)
        simp only [hown _ (by omega : 12 ≤ 18), hsubstr _ (by omega : 12 ≤ senderId.length)]
        split
        next => exact ⟨_, rfl⟩
        next h₁₂ =>
          have hlength := congrArg List.length (not_not.mp h₁₂)
          simp only [List.length_take, List.length_drop] at hlength
          simp only [hown _ (by omega : 18 ≤ 18), hsubstr _ (by omega : 18 ≤ senderId.length)]
          split_ifs <;> exact ⟨_, rfl⟩

end Levels

end Hgfrr
