import Hgfrr.Model.Text

/-!
# Nodes and node tables

A node keeps one ring for each level it belongs to, lowest level first. The
queries compare a level with `tables.size() - 1`, computed without sign.
-/

namespace Hgfrr

/-- A node: its id, and the address it is reached at. -/
structure Node where
  id : Str
  ip : Str
  port : ℕ
deriving DecidableEq, Repr

/-- One ring as a node knows it. Maps are lists of entries in their iteration
order. -/
structure Ring where
  ringLevel : ℕ
  contactNodes : List (Str × Node)
  predecessor : Option Node
  successor : Option Node
  peerSet : List (Str × Node)
  peerList : List Node
deriving DecidableEq, Repr

/-- The ids of the peers, in order. -/
def Ring.peerIds (ring : Ring) : List Str := ring.peerList.map Node.id

/-- The ids of the contact nodes, in iteration order. -/
def Ring.contactIds (ring : Ring) : List Str := ring.contactNodes.map fun entry => entry.2.id

structure NodeTable where
  selfId : Str
  tables : List Ring
deriving DecidableEq, Repr

namespace NodeTable

variable (table : NodeTable)

/-- `tables.size() - 1` as an `unsigned long`. -/
def getTopLevel : ℕ := ulong ((table.tables.length : ℤ) - 1)

/-- `tables.at(level)`, also where the source writes `tables[level]`. -/
def ringAt (level : ℕ) : Except Fault Ring :=
  match table.tables[level]? with
  | some ring => .ok ring
  | none => .error .outOfRange

def isContactNode (level : ℕ) : Bool := !(table.getTopLevel < level)

/-- Copies of the contact nodes, none when the node has no ring at `level`. -/
def getContactNodes (level : ℕ) : Except Fault (List Node) :=
  if table.getTopLevel < level then .ok []
  else (table.ringAt level).map fun ring => ring.contactNodes.map Prod.snd

/-- The peer at a position, a null pointer when there is no ring. A negative
position is out of range for any list. -/
def getPeerByOrder (level : ℕ) (order : ℤ) : Except Fault (Option Node) :=
  if table.getTopLevel < level then .ok none
  else do
    let ring ← table.ringAt level
    if order < 0 then throw .outOfRange
    match ring.peerList[order.toNat]? with
    | some node => return some node
    | none => throw .outOfRange

/-- The first position at which the peer list has an id, or `-1`. -/
def getNodeIdInVector (level : ℕ) (id : Str) : Except Fault ℤ :=
  if table.getTopLevel < level then .ok (-1)
  else (table.ringAt level).map fun ring =>
    if id ∈ ring.peerIds then (ring.peerIds.idxOf id : ℤ) else -1

/-- The last position of the peer list. -/
def getPeerListSize (level : ℕ) : Except Fault ℤ :=
  if table.getTopLevel < level then .ok (-1)
  else (table.ringAt level).map fun ring => (ring.peerList.length : ℤ) - 1

variable {table} in
/-- With at least one ring, looking up contact nodes never fails. -/
theorem exists_contactNodes (hrings : 0 < table.tables.length) (level : ℕ) :
    ∃ contactNodes, table.getContactNodes level = .ok contactNodes := by
  unfold getContactNodes
  split
  next => exact ⟨[], rfl⟩
  next hlevel =>
    have htop : table.getTopLevel ≤ table.tables.length - 1 := by
      simp only [getTopLevel, ulong]
      omega
    rw [ringAt, List.getElem?_eq_getElem (by omega)]
    exact ⟨_, rfl⟩

end NodeTable

/-- Tables with at least one ring, and no more levels than an id has segments. -/
structure NodeTable.HasRings (table : NodeTable) : Prop where
  pos : 0 < table.tables.length
  le : table.tables.length ≤ 6

namespace NodeTable.HasRings

variable {table : NodeTable} (h : table.HasRings) {level : ℕ}
include h

theorem getTopLevel_eq : table.getTopLevel = table.tables.length - 1 := by
  have hpos := h.pos
  have hle := h.le
  rw [getTopLevel, show (table.tables.length : ℤ) - 1 =
      ((table.tables.length - 1 : ℕ) : ℤ) by omega]
  exact ulong_of_lt (by omega)

theorem getTopLevel_lt_iff : table.getTopLevel < level ↔ table.tables[level]? = none := by
  have hpos := h.pos
  rw [h.getTopLevel_eq, List.getElem?_eq_none_iff]
  omega

theorem isContactNode_eq : table.isContactNode level = table.tables[level]?.isSome := by
  rw [isContactNode]
  cases hring : table.tables[level]? with
  | none => simp [h.getTopLevel_lt_iff, hring]
  | some ring => simp [h.getTopLevel_lt_iff, hring]

theorem getContactNodes_of_none (hring : table.tables[level]? = none) :
    table.getContactNodes level = .ok [] :=
  if_pos (h.getTopLevel_lt_iff.mpr hring)

theorem getContactNodes_of_some {ring : Ring} (hring : table.tables[level]? = some ring) :
    table.getContactNodes level = .ok (ring.contactNodes.map Prod.snd) := by
  rw [getContactNodes, if_neg (by simp [h.getTopLevel_lt_iff, hring]), ringAt, hring]
  rfl

theorem getPeerListSize_of_none (hring : table.tables[level]? = none) :
    table.getPeerListSize level = .ok (-1) :=
  if_pos (h.getTopLevel_lt_iff.mpr hring)

theorem getPeerListSize_of_some {ring : Ring} (hring : table.tables[level]? = some ring) :
    table.getPeerListSize level = .ok ((ring.peerList.length : ℤ) - 1) := by
  rw [getPeerListSize, if_neg (by simp [h.getTopLevel_lt_iff, hring]), ringAt, hring]
  rfl

theorem getNodeIdInVector_of_none (hring : table.tables[level]? = none) (id : Str) :
    table.getNodeIdInVector level id = .ok (-1) :=
  if_pos (h.getTopLevel_lt_iff.mpr hring)

theorem getNodeIdInVector_of_some {ring : Ring} (hring : table.tables[level]? = some ring)
    (id : Str) : table.getNodeIdInVector level id =
      .ok (if id ∈ ring.peerIds then (ring.peerIds.idxOf id : ℤ) else -1) := by
  rw [getNodeIdInVector, if_neg (by simp [h.getTopLevel_lt_iff, hring]), ringAt, hring]
  rfl

theorem getPeerByOrder_of_some {ring : Ring} (hring : table.tables[level]? = some ring) {order : ℤ}
    (horder : 0 ≤ order) {node : Node} (hnode : ring.peerList[order.toNat]? = some node) :
    table.getPeerByOrder level order = .ok (some node) := by
  rw [getPeerByOrder, if_neg (by simp [h.getTopLevel_lt_iff, hring]), ringAt, hring]
  simp only [bind, Except.bind, if_neg (not_lt.mpr horder), hnode]
  rfl

end NodeTable.HasRings

end Hgfrr
