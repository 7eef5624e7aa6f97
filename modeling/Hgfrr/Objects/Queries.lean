import Hgfrr.Objects.Copies

/-!
# Queries that leave the table

Queries that compare the level with the highest one first are safe on any table that has
a ring, as long as what they copy is not null. On a table without rings the comparison
lets every level pass. Queries that go to the ring at once need one at their level.
-/

namespace Hgfrr

namespace ObjectTable

/-- The tables that set-up calls lead to, from that of a new node. A vector has a size of
type `unsigned long`. -/
inductive Reachable : ObjectTable → Prop
  | new (selfId : Str) : Reachable ⟨selfId, []⟩
  | addTable {table : ObjectTable} (ring : RingObjects) (hsize : table.tables.length + 1 < 2 ^ 64) :
      Reachable table → Reachable (table.addTable ring)
  | removeTable {table after : ObjectTable} (level : ℕ)
      (hafter : table.removeTable level = .ok after) : Reachable table → Reachable after
  | setTables {table : ObjectTable} (tables : List RingObjects) (hsize : tables.length < 2 ^ 64) :
      Reachable table → Reachable (table.setTables tables)
  | resetTables {table : ObjectTable} : Reachable table → Reachable table.resetTables

theorem length_lt_of_reachable {table : ObjectTable} (h : table.Reachable) :
    table.tables.length < 2 ^ 64 := by
  induction h with
  | new selfId => exact Nat.two_pow_pos 64
  | addTable ring hsize _ _ => simpa [addTable] using hsize
  | removeTable level hafter _ ih =>
      unfold removeTable at hafter
      split at hafter
      next =>
        obtain rfl := Except.ok.inj hafter
        exact lt_of_le_of_lt (List.length_eraseIdx_le _ _) ih
      next => exact nomatch hafter
  | setTables tables hsize _ _ => exact hsize
  | resetTables _ _ => exact Nat.two_pow_pos 64

section Levels

variable {table : ObjectTable} {level : ℕ}

/-- The comparison with the highest level finds the levels without a ring. -/
theorem getTopLevel_lt_iff (hpos : 0 < table.tables.length) (hsize : table.tables.length < 2 ^ 64) :
    table.getTopLevel < level ↔ table.tables[level]? = none := by
  have htop : table.getTopLevel = table.tables.length - 1 := by
    rw [getTopLevel, ← Nat.cast_pred hpos]
    exact ulong_of_lt (by omega)
  rw [htop, List.getElem?_eq_none_iff]
  omega

/-- Without any ring no level is above the highest one. -/
theorem not_getTopLevel_lt (hempty : table.tables = []) (hlevel : level < 2 ^ 64) :
    ¬table.getTopLevel < level := by
  have htop : table.getTopLevel = 2 ^ 64 - 1 := by
    rw [getTopLevel, hempty]
    rfl
  omega

end Levels

/-- A query ends well, and without a ring at the level its answer is the one for nodes that
do not reside in that ring. -/
def Answers {α : Type} (table : ObjectTable) (level : ℕ) (result : Except Fault α) (absent : α) :
    Prop :=
  (∃ a, result = .ok a) ∧ (table.tables[level]? = none → result = .ok absent)

section Answers

variable {table : ObjectTable} {level : ℕ} {α : Type} {absent : α}

/-- What goes to the ring at once needs a ring. -/
theorem answers_ringUnchecked_iff {query : RingObjects → Except Fault α}
    (hquery : ∀ ring, table.tables[level]? = some ring → ∃ a, query ring = .ok a) :
    table.Answers level (table.ringUnchecked level >>= query) absent ↔
      level < table.tables.length := by
  rw [← not_le, ← List.getElem?_eq_none_iff]
  unfold ringUnchecked
  constructor
  · rintro ⟨⟨a, ha⟩, _⟩ hnone
    rw [hnone] at ha
    exact nomatch ha
  · intro hsome
    refine ⟨?_, fun hnone => absurd hnone hsome⟩
    obtain ⟨ring, hring⟩ := Option.ne_none_iff_exists'.mp hsome
    rw [hring]
    exact hquery ring hring

theorem answers_getNode_iff {id : Str} {use : Pointer → Except Fault α}
    (huse : ∀ pointer, ∃ a, use pointer = .ok a) :
    table.Answers level (table.getNode level id >>= use) absent ↔ level < table.tables.length := by
  have hbind : table.getNode level id >>= use =
      table.ringUnchecked level >>= fun ring => use (ring.getNode id) := by
    rw [getNode]
    cases table.ringUnchecked level <;> rfl
  rw [hbind]
  exact answers_ringUnchecked_iff fun ring _ => huse _

/-- What compares the level first needs any ring, and an answer from the ring of the level. -/
theorem answers_checked_iff (hsize : table.tables.length < 2 ^ 64) (hlevel : level < 2 ^ 64)
    {found : Except Fault α} (hfound : table.tables = [] → ∀ a, found ≠ .ok a) :
    table.Answers level (if table.getTopLevel < level then .ok absent else found) absent ↔
      0 < table.tables.length ∧
        ∀ ring, table.tables[level]? = some ring → ∃ a, found = .ok a := by
  rcases Nat.eq_zero_or_pos table.tables.length with hzero | hpos
  · have hempty := List.eq_nil_of_length_eq_zero hzero
    rw [if_neg (not_getTopLevel_lt hempty hlevel)]
    constructor
    · rintro ⟨⟨a, ha⟩, _⟩
      exact absurd ha (hfound hempty a)
    · intro h
      exact absurd h.1 hzero.not_gt
  · simp only [getTopLevel_lt_iff hpos hsize, Answers, hpos, true_and]
    cases hring : table.tables[level]? with
    | none => simp
    | some ring => simp

theorem answers_inRing_iff (hsize : table.tables.length < 2 ^ 64) (hlevel : level < 2 ^ 64)
    {query : RingObjects → Except Fault α} :
    table.Answers level (table.inRing level absent query) absent ↔
      0 < table.tables.length ∧
        ∀ ring, table.tables[level]? = some ring → ∃ a, query ring = .ok a := by
  have hat : ∀ ring, table.tables[level]? = some ring →
      table.ringAt level >>= query = query ring := by
    intro ring hring
    rw [ringAt, hring]
    rfl
  rw [inRing, answers_checked_iff hsize hlevel]
  · apply and_congr_right
    intro _
    apply forall₂_congr
    intro ring hring
    rw [hat ring hring]
  · intro hempty a ha
    rw [ringAt, hempty] at ha
    exact nomatch ha

end Answers

end ObjectTable

/-- The pointers of a list up to the first node with an id are not null. -/
def NoNullBefore (store : Store) (id : Str) (nodes : List Pointer) : Prop :=
  ∀ before after, nodes = before ++ none :: after →
    ∃ ref, some ref ∈ before ∧ (store.object ref).node.id = id

theorem noNullBefore_cons {store : Store} {id : Str} {ref : ℕ} {nodes : List Pointer}
    (hne : (store.object ref).node.id ≠ id) :
    NoNullBefore store id (some ref :: nodes) ↔ NoNullBefore store id nodes := by
  constructor
  · intro h before after heq
    obtain ⟨found, hfound, hid⟩ := h (some ref :: before) after (congrArg (some ref :: ·) heq)
    rcases List.mem_cons.mp hfound with hsame | hrest
    · exact absurd (Option.some.inj hsame ▸ hid) hne
    · exact ⟨found, hrest, hid⟩
  · intro h before after heq
    cases before with
    | nil => exact nomatch heq
    | cons first before =>
        obtain ⟨found, hfound, hid⟩ := h before after (List.cons.inj heq).2
        exact ⟨found, List.mem_cons_of_mem _ hfound, hid⟩

/-- The search ends well when it meets the id before any null pointer. -/
theorem RingObjects.exists_findId_iff {store : Store} {id : Str} {nodes : List Pointer} {i : ℕ} :
    (∃ position, RingObjects.findId store id nodes i = .ok position) ↔
      NoNullBefore store id nodes := by
  induction nodes generalizing i with
  | nil => simp [RingObjects.findId, NoNullBefore]
  | cons node nodes ih =>
      cases node with
      | none =>
          constructor
          · rintro ⟨position, hposition⟩
            exact nomatch hposition
          · intro h
            obtain ⟨ref, hmem, _⟩ := h [] nodes rfl
            exact absurd hmem List.not_mem_nil
      | some ref =>
          have hstep : RingObjects.findId store id (some ref :: nodes) i =
              if (store.object ref).node.id = id then .ok (i : ℤ)
              else RingObjects.findId store id nodes (i + 1) := rfl
          rw [hstep]
          split
          next hid =>
            refine ⟨fun _ before after heq => ?_, fun _ => ⟨i, rfl⟩⟩
            cases before with
            | nil => exact nomatch heq
            | cons first before =>
                obtain rfl := (List.cons.inj heq).1
                exact ⟨ref, List.mem_cons_self, hid⟩
          next hid => rw [ih, noNullBefore_cons hid]

/-- A query about a level, or an update of the times of a node, with its other arguments. -/
inductive Query
  | hasNode (id : Str)
  | getNodeCopy (id : Str)
  | setNodeLastPingNow (id : Str) (now : ℤ)
  | setNodeLastPongNow (id : Str) (now : ℤ)
  | isContactNode
  | getContactNodes
  | getSuccessor
  | getPredecessor
  | getPeerSet
  | getPeer (id : Str)
  | getNodeIdInVector (id : Str)
  | getPeerListSize
deriving DecidableEq, Repr

namespace Query

open ObjectTable

variable (store : Store) (table : ObjectTable) (level : ℕ)

/-- The query stays in the table. Updates leave the nodes as they are where there is
nothing to update. -/
def StaysInTable : Query → Prop
  | hasNode id => table.Answers level (table.hasNode level id) false
  | getNodeCopy id => table.Answers level (table.getNodeCopy store level id) none
  | setNodeLastPingNow id now =>
      table.Answers level (table.setNodeLastPingNow store level id now) store
  | setNodeLastPongNow id now =>
      table.Answers level (table.setNodeLastPongNow store level id now) store
  | isContactNode => table.Answers level (.ok (table.isContactNode level)) false
  | getContactNodes => table.Answers level (table.getContactNodes store level) []
  | getSuccessor => table.Answers level (table.getSuccessor store level) none
  | getPredecessor => table.Answers level (table.getPredecessor store level) none
  | getPeerSet => table.Answers level (table.getPeerSet store level) []
  | getPeer id => table.Answers level (table.getPeer store level id) none
  | getNodeIdInVector id => table.Answers level (table.getNodeIdInVector store level id) (-1)
  | getPeerListSize => table.Answers level (table.getPeerListSize level) (-1)

/-- Where the query is safe: what it needs of the table at its level. -/
def SafeOn : Query → Prop
  | hasNode _ | getNodeCopy _ | setNodeLastPingNow _ _ | setNodeLastPongNow _ _ =>
      level < table.tables.length
  | isContactNode | getPeer _ | getPeerListSize => 0 < table.tables.length
  | getContactNodes => 0 < table.tables.length ∧
      ∀ ring, table.tables[level]? = some ring → ∀ entry ∈ ring.contactNodes, entry.2 ≠ none
  | getSuccessor => 0 < table.tables.length ∧
      ∀ ring, table.tables[level]? = some ring → ring.successor ≠ none
  | getPredecessor => 0 < table.tables.length ∧
      ∀ ring, table.tables[level]? = some ring → ring.predecessor ≠ none
  | getPeerSet => 0 < table.tables.length ∧
      ∀ ring, table.tables[level]? = some ring → ∀ entry ∈ ring.peerSet, entry.2 ≠ none
  | getNodeIdInVector id => 0 < table.tables.length ∧
      ∀ ring, table.tables[level]? = some ring → NoNullBefore store id ring.peerList

variable {store table level}

/-- A copy is handed on. -/
theorem exists_map_copyNode_iff {pointer : Pointer} :
    (∃ copy, (store.copyNode pointer).map some = .ok copy) ↔ pointer ≠ none := by
  cases pointer <;> simp [Store.copyNode, Except.map]

theorem answers_getNodeCopy_iff {id : Str} :
    table.Answers level (table.getNodeCopy store level id) none ↔ level < table.tables.length := by
  apply answers_getNode_iff
  intro pointer
  cases pointer with
  | none => exact ⟨none, rfl⟩
  | some ref => exact ⟨some (store.object ref), rfl⟩

theorem answers_isContactNode_iff (hsize : table.tables.length < 2 ^ 64) (hlevel : level < 2 ^ 64) :
    table.Answers level (.ok (table.isContactNode level)) false ↔ 0 < table.tables.length := by
  rw [Answers, ObjectTable.isContactNode]
  rcases Nat.eq_zero_or_pos table.tables.length with hzero | hpos
  · have hempty := List.eq_nil_of_length_eq_zero hzero
    simp [not_getTopLevel_lt hempty hlevel, hempty]
  · simpa [getTopLevel_lt_iff hpos hsize, hpos] using le_or_gt table.tables.length level

theorem answers_getPeer_iff (hsize : table.tables.length < 2 ^ 64) (hlevel : level < 2 ^ 64)
    {id : Str} :
    table.Answers level (table.getPeer store level id) none ↔ 0 < table.tables.length := by
  have hcopy : ∀ ring, table.tables[level]? = some ring →
      ∃ copy, table.getNodeCopy store level id = .ok copy := by
    intro ring hring
    exact (answers_getNodeCopy_iff.mpr (List.getElem?_eq_some_iff.mp hring).1).1
  rw [ObjectTable.getPeer, answers_checked_iff hsize hlevel]
  · exact and_iff_left hcopy
  · intro hempty copy hok
    rw [ObjectTable.getNodeCopy, ObjectTable.getNode, ringUnchecked, hempty] at hok
    exact nomatch hok

end Query

open ObjectTable Query in
/-- Exactly the safe queries stay in the table, whatever set-up calls it comes from. -/
theorem query_staysInTable_iff (store : Store) (table : ObjectTable) (h : table.Reachable)
    (level : ℕ) (hlevel : level < 2 ^ 64) (query : Query) :
    query.StaysInTable store table level ↔ query.SafeOn store table level := by
  have hsize := length_lt_of_reachable h
  cases query with
  | hasNode id =>
      apply answers_ringUnchecked_iff
      exact fun ring _ => ⟨_, rfl⟩
  | getNodeCopy id => exact answers_getNodeCopy_iff
  | setNodeLastPingNow id now =>
      apply answers_getNode_iff
      intro pointer
      cases pointer with
      | none => exact ⟨store, rfl⟩
      | some ref => exact ⟨store.setLastPingNow ref now, rfl⟩
  | setNodeLastPongNow id now =>
      apply answers_getNode_iff
      intro pointer
      cases pointer with
      | none => exact ⟨store, rfl⟩
      | some ref => exact ⟨store.setLastPongNow ref now, rfl⟩
  | isContactNode => exact answers_isContactNode_iff hsize hlevel
  | getContactNodes =>
      apply (answers_inRing_iff hsize hlevel).trans
      simp only [Except.exists_mapM_ok_iff, Store.exists_copyNode_iff]
      rfl
  | getSuccessor =>
      apply (answers_inRing_iff hsize hlevel).trans
      simp only [exists_map_copyNode_iff]
      rfl
  | getPredecessor =>
      apply (answers_inRing_iff hsize hlevel).trans
      simp only [exists_map_copyNode_iff]
      rfl
  | getPeerSet =>
      apply (answers_inRing_iff hsize hlevel).trans
      simp only [Except.exists_mapM_ok_iff, Store.exists_copyNode_iff]
      rfl
  | getPeer id => exact answers_getPeer_iff hsize hlevel
  | getNodeIdInVector id =>
      apply (answers_inRing_iff hsize hlevel).trans
      simp only [RingObjects.exists_findId_iff]
      rfl
  | getPeerListSize =>
      apply (answers_inRing_iff hsize hlevel).trans
      simp [SafeOn]

open Coords

/-- The table that the first node of two districts forms. -/
def tableOfTwoDistricts : ObjectTable :=
  builtTable (text (move 0 0 0 0)) formedOfTwoDistricts.1

theorem reachable_tableOfTwoDistricts : tableOfTwoDistricts.Reachable :=
  .setTables _ (by decide +kernel) (.new (text (move 0 0 0 0)))

theorem query_staysInTable_twoDistricts :
    Query.getSuccessor.StaysInTable formedOfTwoDistricts.2 tableOfTwoDistricts 0 ↔
      Query.getSuccessor.SafeOn formedOfTwoDistricts.2 tableOfTwoDistricts 0 :=
  query_staysInTable_iff formedOfTwoDistricts.2 tableOfTwoDistricts reachable_tableOfTwoDistricts 0
    (by decide) .getSuccessor

/-- Before any set-up the table has no ring at level 0, and the ring of districts has no
successor to copy. -/
theorem query_not_staysInTable :
    ObjectTable.Reachable ⟨text (move 0 0 0 0), []⟩ ∧
      ¬(Query.hasNode (text (move 0 0 0 0))).StaysInTable noObjects ⟨text (move 0 0 0 0), []⟩ 0 ∧
      tableOfTwoDistricts.Reachable ∧
      ¬Query.getSuccessor.StaysInTable formedOfTwoDistricts.2 tableOfTwoDistricts 1 := by
  refine ⟨.new _, ?_, reachable_tableOfTwoDistricts, ?_⟩
  · rintro ⟨⟨known, hknown⟩, _⟩
    exact nomatch hknown
  · rintro ⟨⟨copy, hcopy⟩, _⟩
    have hnull : tableOfTwoDistricts.getSuccessor formedOfTwoDistricts.2 1 =
        .error .undefinedBehaviour := by
      decide +kernel
    rw [hnull] at hcopy
    exact nomatch hcopy

end Hgfrr
