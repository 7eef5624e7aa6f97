import Hgfrr.Model.NodeTable

/-!
# Nodes as shared objects

A table holds its nodes by shared pointers, which may be null, and hands out copies of
them. The objects stand in a store, where a pointer is a reference. Some queries compare
a level with `tables.size() - 1` first, others go to the ring of the level at once.
-/

namespace Hgfrr

/-- A `Node` with the times of its last ping and its last pong. -/
structure NodeObject where
  node : Node
  lastPing : ℤ
  lastPong : ℤ
deriving DecidableEq, Repr

/-- `std::shared_ptr<Node>`: null, or a reference into the store. -/
abbrev Pointer := Option ℕ

/-- The objects, at the references below `size`. -/
structure Store where
  size : ℕ
  object : ℕ → NodeObject

namespace Store

variable (store : Store) (ref : ℕ) (now : ℤ)

/-- `Node::set_last_ping_now`, where the clock shows `now`. -/
def setLastPingNow : Store where
  size := store.size
  object := Function.update store.object ref { store.object ref with lastPing := now }

/-- `Node::set_last_pong_now`, where the clock shows `now`. -/
def setLastPongNow : Store where
  size := store.size
  object := Function.update store.object ref { store.object ref with lastPong := now }

/-- `NodeTable::copy_node`: a copy of the object, which a null pointer does not have. -/
def copyNode : Pointer → Except Fault NodeObject
  | none => .error .undefinedBehaviour
  | some ref => .ok (store.object ref)

@[simp] theorem copyNode_some : store.copyNode (some ref) = .ok (store.object ref) := rfl

@[simp] theorem setLastPingNow_node (other : ℕ) :
    ((store.setLastPingNow ref now).object other).node = (store.object other).node := by
  simp only [setLastPingNow, Function.update_apply]
  split
  next heq => rw [heq]
  next => rfl

@[simp] theorem setLastPongNow_node (other : ℕ) :
    ((store.setLastPongNow ref now).object other).node = (store.object other).node := by
  simp only [setLastPongNow, Function.update_apply]
  split
  next heq => rw [heq]
  next => rfl

/-- A copy is made of every pointer but null. -/
theorem exists_copyNode_iff {pointer : Pointer} :
    (∃ copy, store.copyNode pointer = .ok copy) ↔ pointer ≠ none := by
  cases pointer <;> simp [copyNode]

end Store

/-- One ring of shared nodes. Maps are lists of entries in their iteration order. -/
structure RingObjects where
  ringLevel : ℕ
  contactNodes : List (Str × Pointer)
  predecessor : Pointer
  successor : Pointer
  peerSet : List (Str × Pointer)
  peerList : List Pointer
deriving DecidableEq, Repr

namespace RingObjects

variable (ring : RingObjects)

/-- The pointer for an id, with contact nodes before peers. -/
def getNode (id : Str) : Pointer :=
  match ring.contactNodes.lookup id with
  | some node => node
  | none => (ring.peerSet.lookup id).getD none

/-- The search for an id from position `i` on. Every node up to the first with the id is
looked at. -/
def findId (store : Store) (id : Str) : List Pointer → ℕ → Except Fault ℤ
  | [], _ => .ok (-1)
  | node :: nodes, i => do
      let object ← store.copyNode node
      if object.node.id = id then return i else findId store id nodes (i + 1)

end RingObjects

structure ObjectTable where
  selfId : Str
  tables : List RingObjects
deriving DecidableEq, Repr

namespace ObjectTable

variable (table : ObjectTable)

/-! ## Set-up -/

def addTable (ring : RingObjects) : ObjectTable := { table with tables := table.tables ++ [ring] }

/-- Only a ring that exists can be erased. -/
def removeTable (level : ℕ) : Except Fault ObjectTable :=
  if level < table.tables.length then .ok { table with tables := table.tables.eraseIdx level }
  else .error .undefinedBehaviour

def setTables (tables : List RingObjects) : ObjectTable := { table with tables := tables }

def resetTables : ObjectTable := { table with tables := [] }

/-! ## Rings -/

/-- `tables.size() - 1` as an `unsigned long`. -/
def getTopLevel : ℕ := ulong ((table.tables.length : ℤ) - 1)

/-- `tables[level]` -/
def ringUnchecked (level : ℕ) : Except Fault RingObjects :=
  match table.tables[level]? with
  | some ring => .ok ring
  | none => .error .undefinedBehaviour

/-- `tables.at(level)` -/
def ringAt (level : ℕ) : Except Fault RingObjects :=
  match table.tables[level]? with
  | some ring => .ok ring
  | none => .error .outOfRange

/-- A query about the ring of a level, and its answer where the node does not reside in
that ring. -/
def inRing {α : Type} (level : ℕ) (absent : α) (query : RingObjects → Except Fault α) :
    Except Fault α :=
  if table.getTopLevel < level then .ok absent
  else table.ringAt level >>= query

/-! ## Storage operations -/

/-- `NodeTable::get_node` -/
def getNode (level : ℕ) (id : Str) : Except Fault Pointer :=
  (table.ringUnchecked level).map fun ring => ring.getNode id

def hasNode (level : ℕ) (id : Str) : Except Fault Bool :=
  (table.ringUnchecked level).map fun ring =>
    (ring.contactNodes.lookup id).isSome || (ring.peerSet.lookup id).isSome

def getNodeCopy (store : Store) (level : ℕ) (id : Str) : Except Fault (Option NodeObject) := do
  match ← table.getNode level id with
  | some ref => return some (← store.copyNode (some ref))
  | none => return none

def setNodeLastPingNow (store : Store) (level : ℕ) (id : Str) (now : ℤ) : Except Fault Store := do
  match ← table.getNode level id with
  | some ref => return store.setLastPingNow ref now
  | none => return store

def setNodeLastPongNow (store : Store) (level : ℕ) (id : Str) (now : ℤ) : Except Fault Store := do
  match ← table.getNode level id with
  | some ref => return store.setLastPongNow ref now
  | none => return store

/-! ## Domain logic -/

def isContactNode (level : ℕ) : Bool := !(table.getTopLevel < level)

def getContactNodes (store : Store) (level : ℕ) : Except Fault (List NodeObject) :=
  table.inRing level [] fun ring => ring.contactNodes.mapM fun entry => store.copyNode entry.2

def getSuccessor (store : Store) (level : ℕ) : Except Fault (Option NodeObject) :=
  table.inRing level none fun ring => (store.copyNode ring.successor).map some

def getPredecessor (store : Store) (level : ℕ) : Except Fault (Option NodeObject) :=
  table.inRing level none fun ring => (store.copyNode ring.predecessor).map some

def getPeerSet (store : Store) (level : ℕ) : Except Fault (List NodeObject) :=
  table.inRing level [] fun ring => ring.peerSet.mapM fun entry => store.copyNode entry.2

def getPeer (store : Store) (level : ℕ) (id : Str) : Except Fault (Option NodeObject) :=
  if table.getTopLevel < level then .ok none
  else table.getNodeCopy store level id

/-- A negative position is out of range for any list. -/
def getPeerByOrder (store : Store) (level : ℕ) (order : ℤ) : Except Fault (Option NodeObject) :=
  if table.getTopLevel < level then .ok none
  else do
    let ring ← table.ringUnchecked level
    if order < 0 then throw .outOfRange
    match ring.peerList[order.toNat]? with
    | some node => return some (← store.copyNode node)
    | none => throw .outOfRange

def getNodeIdInVector (store : Store) (level : ℕ) (id : Str) : Except Fault ℤ :=
  table.inRing level (-1) fun ring => RingObjects.findId store id ring.peerList 0

def getPeerListSize (level : ℕ) : Except Fault ℤ :=
  table.inRing level (-1) fun ring => .ok ((ring.peerList.length : ℤ) - 1)

end ObjectTable

end Hgfrr
