import Hgfrr.Topology.ClientTables

/-!
# The ring of a district

The neighbours of a node are found in one loop over all places of its district. With
three nodes or more, as many as the last segment of an id has numbers for, the rings of
all nodes are one cycle. Of two nodes each is both neighbours of the other, but the loop
takes it for one of them only.
-/

namespace Hgfrr

/-! ## A loop that overwrites -/

section Overwriting

variable {α : Type*} {writes : ℕ → Prop} [DecidablePred writes] {value : ℕ → α}
  (found : ℕ → Option α)
  (hsucc : ∀ m, found (m + 1) = if writes m then some (value m) else found m)
include hsucc

/-- What is written once stays. -/
theorem overwritten_eq_some {m a : ℕ} (ha : a < m) (hwrites : ∀ i < m, writes i ↔ i = a) :
    found m = some (value a) := by
  induction m with
  | zero => exact absurd ha (Nat.not_lt_zero a)
  | succ m ih =>
      rw [hsucc]
      split
      next hwrite => rw [(hwrites m m.lt_succ_self).mp hwrite]
      next hnot =>
        have hne : a ≠ m := fun heq => hnot ((hwrites m m.lt_succ_self).mpr heq.symm)
        exact ih (by omega) fun i hi => hwrites i (by omega)

theorem overwritten_eq_none (hzero : found 0 = none) {m : ℕ} (hwrites : ∀ i < m, ¬writes i) :
    found m = none := by
  induction m with
  | zero => exact hzero
  | succ m ih =>
      rw [hsucc, if_neg (hwrites m m.lt_succ_self)]
      exact ih fun i hi => hwrites i (by omega)

end Overwriting

/-- The loop takes place `i` for the predecessor. -/
def TakenAsPredecessor (place : ℤ) (n : ℕ) (i : ℕ) : Prop :=
  (place = 0 ∧ (i : ℤ) = n - 1) ∨
    (¬(place = n - 1 ∧ (i : ℤ) = 0) ∧ (i : ℤ) ≠ place + 1 ∧ (i : ℤ) = place - 1)

/-- The loop takes place `i` for the successor. -/
def TakenAsSuccessor (place : ℤ) (n : ℕ) (i : ℕ) : Prop :=
  ¬(place = 0 ∧ (i : ℤ) = n - 1) ∧ ((place = n - 1 ∧ (i : ℤ) = 0) ∨ (i : ℤ) = place + 1)

instance (place : ℤ) (n : ℕ) : DecidablePred (TakenAsPredecessor place n) := fun _ =>
  inferInstanceAs (Decidable (_ ∨ _))

instance (place : ℤ) (n : ℕ) : DecidablePred (TakenAsSuccessor place n) := fun _ =>
  inferInstanceAs (Decidable (_ ∧ _))

section Places

variable {n place : ℕ} {node : ℕ → Node}

theorem neighbours_succ (place : ℤ) (n m : ℕ) (node : ℕ → Node) :
    neighbours place n ((List.range (m + 1)).map fun i => (i, node i)) =
      (if TakenAsPredecessor place n m then some (node m)
        else (neighbours place n ((List.range m).map fun i => (i, node i))).1,
      if TakenAsSuccessor place n m then some (node m)
        else (neighbours place n ((List.range m).map fun i => (i, node i))).2) := by
  rw [List.range_succ, List.map_append, neighbours, List.foldl_append]
  simp only [List.map_cons, List.map_nil, List.foldl_cons, List.foldl_nil]
  split
  next hfirst =>
    have hpredecessor : TakenAsPredecessor place n m := by
      unfold TakenAsPredecessor
      omega
    have hsuccessor : ¬TakenAsSuccessor place n m := by
      unfold TakenAsSuccessor
      omega
    rw [if_pos hpredecessor, if_neg hsuccessor]
    rfl
  next hfirst =>
    split
    next hlast =>
      have hpredecessor : ¬TakenAsPredecessor place n m := by
        unfold TakenAsPredecessor
        omega
      have hsuccessor : TakenAsSuccessor place n m := by
        unfold TakenAsSuccessor
        omega
      rw [if_neg hpredecessor, if_pos hsuccessor]
      rfl
    next hlast =>
      split
      next hnext =>
        have hpredecessor : ¬TakenAsPredecessor place n m := by
          unfold TakenAsPredecessor
          omega
        have hsuccessor : TakenAsSuccessor place n m := by
          unfold TakenAsSuccessor
          omega
        rw [if_neg hpredecessor, if_pos hsuccessor]
        rfl
      next hnext =>
        split
        next hprevious =>
          have hpredecessor : TakenAsPredecessor place n m := by
            unfold TakenAsPredecessor
            omega
          have hsuccessor : ¬TakenAsSuccessor place n m := by
            unfold TakenAsSuccessor
            omega
          rw [if_pos hpredecessor, if_neg hsuccessor]
          rfl
        next hprevious =>
          have hpredecessor : ¬TakenAsPredecessor place n m := by
            unfold TakenAsPredecessor
            omega
          have hsuccessor : ¬TakenAsSuccessor place n m := by
            unfold TakenAsSuccessor
            omega
          rw [if_neg hpredecessor, if_neg hsuccessor]
          rfl

theorem takenAsPredecessor_iff (hn : 3 ≤ n) (hplace : place < n) {i : ℕ} (hi : i < n) :
    TakenAsPredecessor place n i ↔ i = (place + n - 1) % n := by
  have hmod : (place + n - 1) % n = if place = 0 then n - 1 else place - 1 := by
    split
    next hzero =>
      rw [hzero, Nat.zero_add]
      exact Nat.mod_eq_of_lt (by omega)
    next hpos =>
      rw [show place + n - 1 = place - 1 + n by omega, Nat.add_mod_right]
      exact Nat.mod_eq_of_lt (by omega)
  rw [hmod, TakenAsPredecessor]
  split <;> omega

theorem takenAsSuccessor_iff (hn : 3 ≤ n) (hplace : place < n) {i : ℕ} (hi : i < n) :
    TakenAsSuccessor place n i ↔ i = (place + 1) % n := by
  have hmod : (place + 1) % n = if place + 1 = n then 0 else place + 1 := by
    split
    next hlast => rw [hlast, Nat.mod_self]
    next hne => exact Nat.mod_eq_of_lt (by omega)
  rw [hmod, TakenAsSuccessor]
  split <;> omega

/-- Of three places or more, each has its two neighbours. -/
theorem neighbours_eq (hn : 3 ≤ n) (hplace : place < n) (node : ℕ → Node) :
    neighbours place n ((List.range n).map fun i => (i, node i)) =
      (some (node ((place + n - 1) % n)), some (node ((place + 1) % n))) := by
  have hpos : 0 < n := by omega
  have hsucc := fun m => neighbours_succ place n m node
  apply Prod.ext
  · exact overwritten_eq_some
      (fun m => (neighbours place n ((List.range m).map fun i => (i, node i))).1)
      (fun m => congrArg Prod.fst (hsucc m)) (Nat.mod_lt _ hpos)
      fun i hi => takenAsPredecessor_iff hn hplace hi
  · exact overwritten_eq_some
      (fun m => (neighbours place n ((List.range m).map fun i => (i, node i))).2)
      (fun m => congrArg Prod.snd (hsucc m)) (Nat.mod_lt _ hpos)
      fun i hi => takenAsSuccessor_iff hn hplace hi

/-- The first of two places has no successor. -/
theorem neighbours_of_two (node : ℕ → Node) :
    (neighbours 0 2 ((List.range 2).map fun i => (i, node i))).2 = none := by
  refine overwritten_eq_none
    (fun m => (neighbours 0 2 ((List.range m).map fun i => (i, node i))).2)
    (fun m => congrArg Prod.snd (neighbours_succ 0 2 m node)) rfl fun i hi => ?_
  rw [TakenAsSuccessor]
  omega

end Places

/-! ## The nodes of a district -/

/-- The id of the node at a place of a district. -/
def memberId (before : Str) (place : ℕ) : Str := before ++ setw idSingleLen place

theorem memberId_injective (before : Str) : Function.Injective (memberId before) :=
  fun _ _ h => setw_injective _ (List.append_cancel_left h)

/-- The rings of a district, as its nodes build them, are one cycle. -/
def DistrictCycle (n : ℕ) (before : Str) (tables : Str → Except Fault (List Ring)) : Prop :=
  ∀ place < n, ∃ ring rings, tables (memberId before place) = .ok (ring :: rings) ∧
    ∃ successor predecessor, ring.successor = some successor ∧
      ring.predecessor = some predecessor ∧
      successor.id = memberId before ((place + 1) % n) ∧
      predecessor.id = memberId before ((place + n - 1) % n) ∧
      ∃ ring' rings', tables successor.id = .ok (ring' :: rings') ∧
        ring'.predecessor.map Node.id = some (memberId before place)

/-- The lowest rings have the neighbours that the loop finds for the number at the end of
the own id. -/
def FoundInLoop (n : ℕ) (before : Str) (node : Str → Node)
    (tables : Str → Except Fault (List Ring)) : Prop :=
  ∀ place, ∃ ring rings, tables (memberId before place) = .ok (ring :: rings) ∧
    (ring.predecessor, ring.successor) =
      neighbours (streamInt ((setw idSingleLen place).take idSingleLen)) n
        ((List.range n).map fun i => (i, node (memberId before i)))

section Cycle

variable {n : ℕ} {before : Str} {node : Str → Node} {tables : Str → Except Fault (List Ring)}

theorem streamInt_take_setw {place : ℕ} (hplace : place < 10 ^ idSingleLen) :
    streamInt ((setw idSingleLen place).take idSingleLen) = place := by
  rw [List.take_of_length_le (length_setw (by decide) hplace).le]
  have hfits : (10 : ℕ) ^ idSingleLen < 2 ^ 31 := by decide
  exact streamInt_setw (hplace.trans hfits)

/-- The node at a place whose number fits has the nodes next to it as neighbours. -/
theorem FoundInLoop.neighbours_eq (h : FoundInLoop n before node tables) (hn : 3 ≤ n) {place : ℕ}
    (hplace : place < n) (hfits : place < 10 ^ idSingleLen) :
    ∃ ring rings, tables (memberId before place) = .ok (ring :: rings) ∧
      ring.predecessor = some (node (memberId before ((place + n - 1) % n))) ∧
      ring.successor = some (node (memberId before ((place + 1) % n))) := by
  obtain ⟨ring, rings, htables, hfound⟩ := h place
  rw [streamInt_take_setw hfits, Hgfrr.neighbours_eq hn hplace] at hfound
  obtain ⟨hpredecessor, hsuccessor⟩ := Prod.mk.inj hfound
  exact ⟨ring, rings, htables, hpredecessor, hsuccessor⟩

/-- One step back from the place after a place. -/
theorem pred_succ_place {place : ℕ} (hplace : place < n) :
    ((place + 1) % n + n - 1) % n = place := by
  rcases Nat.lt_or_ge (place + 1) n with hlt | hge
  · rw [Nat.mod_eq_of_lt hlt, show place + 1 + n - 1 = place + n by omega, Nat.add_mod_right,
      Nat.mod_eq_of_lt hplace]
  · rw [show place + 1 = n by omega, Nat.mod_self, Nat.zero_add]
    exact (Nat.mod_eq_of_lt (by omega)).trans (by omega)

theorem FoundInLoop.cycle (h : FoundInLoop n before node tables) (hname : ∀ id, (node id).id = id)
    (hn : 3 ≤ n) (hfits : n ≤ 10 ^ idSingleLen) : DistrictCycle n before tables := by
  intro place hplace
  obtain ⟨ring, rings, htables, hpredecessor, hsuccessor⟩ :=
    h.neighbours_eq hn hplace (by omega)
  have hnext : (place + 1) % n < n := Nat.mod_lt _ (by omega)
  obtain ⟨ring', rings', htables', hpredecessor', _⟩ := h.neighbours_eq hn hnext (by omega)
  refine ⟨ring, rings, htables, _, _, hsuccessor, hpredecessor, hname _, hname _, ring', rings',
    ?_, ?_⟩
  · rw [hname]
    exact htables'
  · rw [hpredecessor', pred_succ_place hplace, Option.map_some, hname]

/-- The first of two nodes has no successor, and where numbers do not fit, the first that
does not has the successor of another. -/
theorem FoundInLoop.of_cycle (h : FoundInLoop n before node tables)
    (hname : ∀ id, (node id).id = id) (hn : 2 ≤ n) (hcycle : DistrictCycle n before tables) :
    3 ≤ n ∧ n ≤ 10 ^ idSingleLen := by
  by_contra hnot
  rcases hn.eq_or_lt with rfl | hthree
  · obtain ⟨ring, rings, htables, successor, _, hsuccessor, _⟩ := hcycle 0 (by omega)
    obtain ⟨ring', rings', htables', hfound⟩ := h 0
    obtain ⟨rfl, rfl⟩ := List.cons.inj (Except.ok.inj (htables.symm.trans htables'))
    have hnone := congrArg Prod.snd hfound
    rw [streamInt_take_setw (by decide)] at hnone
    exact nomatch hsuccessor.symm.trans (hnone.trans (neighbours_of_two _))
  · have hlarge : 10 ^ idSingleLen < n := by omega
    obtain ⟨ring, rings, htables, successor, _, hsuccessor, _, hid, _⟩ := hcycle _ hlarge
    obtain ⟨ring', rings', htables', hfound⟩ := h (10 ^ idSingleLen)
    obtain ⟨rfl, rfl⟩ := List.cons.inj (Except.ok.inj (htables.symm.trans htables'))
    have hcut : streamInt ((setw idSingleLen (10 ^ idSingleLen)).take idSingleLen) =
        (10 ^ 8 : ℕ) := by
      decide +kernel
    have hpow : (10 : ℕ) ^ idSingleLen = 1000000000 := rfl
    rw [hcut, Hgfrr.neighbours_eq hthree (by omega)] at hfound
    have heq := Option.some.inj (hsuccessor.symm.trans (congrArg Prod.snd hfound))
    rw [heq, hname] at hid
    have hplaces := memberId_injective before hid
    rw [Nat.mod_eq_of_lt (by omega)] at hplaces
    rcases Nat.lt_or_ge (10 ^ idSingleLen + 1) n with hlt | hge
    · rw [Nat.mod_eq_of_lt hlt] at hplaces
      omega
    · rw [show 10 ^ idSingleLen + 1 = n by omega, Nat.mod_self] at hplaces
      omega

theorem FoundInLoop.cycle_iff (h : FoundInLoop n before node tables)
    (hname : ∀ id, (node id).id = id) (hn : 2 ≤ n) :
    DistrictCycle n before tables ↔ 3 ≤ n ∧ n ≤ 10 ^ idSingleLen :=
  ⟨h.of_cycle hname hn, fun hsize => h.cycle hname hsize.1 hsize.2⟩

end Cycle

/-! ## Both builders -/

section Builders

variable {before : Str} (hbefore : before.length = idSingleStart)
include hbefore

theorem take_memberId (place : ℕ) : (memberId before place).take idSingleStart = before := by
  rw [memberId, ← hbefore, List.take_left]

theorem drop_memberId (place : ℕ) :
    (memberId before place).drop idSingleStart = setw idSingleLen place := by
  rw [memberId, ← hbefore, List.drop_left]

theorem idSingleStart_le_length_memberId (place : ℕ) :
    idSingleStart ≤ (memberId before place).length := by
  rw [memberId, List.length_append, hbefore]
  exact Nat.le_add_right _ _

/-- The lowest ring of a node, where all nodes of its district are known. -/
theorem exists_peerLevel_memberId {builder : TableBuilder} {node : Str → Node}
    {known : Str → Prop} (hnames : builder.Names node known) {place : ℕ}
    (hself : builder.selfId = memberId before place) {peers : ℕ}
    (hknown : ∀ i < peers, known (memberId before i)) (contacts : ℕ) :
    ∃ ring list, builder.peerLevel peers contacts = .ok (ring, list) ∧
      (∀ other ∈ list, BaseApp.LongId other) ∧
      (ring.predecessor, ring.successor) =
        neighbours (streamInt ((setw idSingleLen place).take idSingleLen)) peers
          ((List.range peers).map fun i => (i, node (memberId before i))) := by
  have hids : builder.peerIds peers = (List.range peers).map (memberId before) := by
    rw [TableBuilder.peerIds, hself, take_memberId hbefore]
    rfl
  obtain ⟨ring, hring, _, hfound⟩ := TableBuilder.peerLevel_eq hnames peers contacts
    (hself ▸ idSingleStart_le_length_memberId hbefore place) fun id hid => by
      rw [hids] at hid
      obtain ⟨i, hi, rfl⟩ := List.mem_map.mp hid
      exact hknown i (List.mem_range.mp hi)
  refine ⟨ring, _, hring, fun other hother => ?_, ?_⟩
  · obtain ⟨id, hid, rfl⟩ := List.mem_map.mp hother
    rw [hids] at hid
    obtain ⟨i, _, rfl⟩ := List.mem_map.mp (List.mem_of_mem_take hid)
    rw [BaseApp.LongId, hnames.id_eq]
    exact idSingleStart_le_length_memberId hbefore i
  · rw [hself, take_memberId hbefore, drop_memberId hbefore] at hfound
    exact hfound

theorem BaseApp.formStructure_foundInLoop (p : Topology) (startingPortNumber : ℕ)
    (order : MapOrder) : FoundInLoop p.numNodesInDist before (localNode p startingPortNumber)
      (formStructure p startingPortNumber order) := by
  intro place
  have hself := idSingleStart_le_length_memberId hbefore place
  obtain ⟨rings, hrings⟩ := exists_formStructure p startingPortNumber order hself
  obtain ⟨ring, list, hring, _, hfound⟩ := exists_peerLevel_memberId hbefore
    (builder_names p startingPortNumber order (memberId before place)) rfl
    (fun i _ => idSingleStart_le_length_memberId hbefore i) p.numCnodesInDist
  have hform := hrings
  obtain ⟨⟨ring', list'⟩, hring', hform⟩ := Except.bind_eq_ok.mp hform
  obtain ⟨rfl, rfl⟩ := Prod.mk.inj (Except.ok.inj (hring.symm.trans hring'))
  obtain ⟨above, _, hform⟩ := Except.bind_eq_ok.mp hform
  obtain rfl := Except.ok.inj hform
  exact ⟨ring, above, hrings, hfound⟩

theorem EvalClient.createHgfrTable_foundInLoop (p : Topology) {nodeList : NodeList}
    (order : MapOrder) (hlist : ∀ i < p.numNodesInDist,
      ∃ address, nodeList.lookup (memberId before i) = some address) :
    FoundInLoop p.numNodesInDist before (listedNode nodeList)
      (createHgfrTable p nodeList order) := by
  intro place
  obtain ⟨ring, list, hring, hlong, hfound⟩ := exists_peerLevel_memberId hbefore
    (tableBuilder_names nodeList order (memberId before place)) rfl hlist p.numCnodesInDist
  obtain ⟨rings, hrings⟩ := exists_createHgfrTable p
    (idSingleStart_le_length_memberId hbefore place) hring hlong
  exact ⟨ring, rings, hrings, hfound⟩

end Builders

/-- The rings of a district of two nodes or more are one cycle, by either builder, exactly
if it has three nodes or more and their numbers fit the last segment. -/
theorem bottomRings_cycle_iff (p : Topology) (hn : 2 ≤ p.numNodesInDist) (before : Str)
    (hbefore : before.length = idSingleStart) (startingPortNumber : ℕ) (order : MapOrder)
    (nodeList : NodeList) (hlist : ∀ i < p.numNodesInDist,
      ∃ address, nodeList.lookup (memberId before i) = some address) :
    (DistrictCycle p.numNodesInDist before (BaseApp.formStructure p startingPortNumber order) ↔
        3 ≤ p.numNodesInDist ∧ p.numNodesInDist ≤ 10 ^ 9) ∧
      (DistrictCycle p.numNodesInDist before (EvalClient.createHgfrTable p nodeList order) ↔
        3 ≤ p.numNodesInDist ∧ p.numNodesInDist ≤ 10 ^ 9) := by
  constructor
  · exact (BaseApp.formStructure_foundInLoop hbefore p startingPortNumber order).cycle_iff
      (fun _ => rfl) hn
  · exact (EvalClient.createHgfrTable_foundInLoop hbefore p order hlist).cycle_iff
      (fun _ => rfl) hn

/-- One district. -/
def oneDistrict (numNodesInDist : ℕ) : Topology where
  numNodesInDist := numNodesInDist
  numCnodesInDist := 1
  numNodesInCity := 0
  numCnodesInCity := 1
  numNodesInState := 0
  numCnodesInState := 1
  numNodesInCountry := 0
  numCnodesInCountry := 1
  numNodesInContinent := 0
  numContinents := 1
  numCnodesInContinent := 1

/-- The first district. -/
def firstDistrict : Str := List.replicate idSingleStart '0'

/-- The nodes of the first district. -/
def firstDistrictList (n : ℕ) : NodeList :=
  (List.range n).map fun i => (memberId firstDistrict i, ("127.0.0.1".toList, 8000 + i))

theorem bottomRings_cycle_three :
    DistrictCycle 3 firstDistrict (BaseApp.formStructure (oneDistrict 3) 7000 insertionOrder) :=
  (bottomRings_cycle_iff (oneDistrict 3) (by decide) firstDistrict (by decide) 7000 insertionOrder
    (firstDistrictList 3) (fun i hi => by
      have hi : i < 3 := hi
      interval_cases i <;> exact ⟨_, rfl⟩)).1.mpr ⟨by decide, by decide⟩

/-- The first of two nodes has no successor, by either builder. -/
theorem bottomRings_not_cycle :
    ¬DistrictCycle 2 firstDistrict (BaseApp.formStructure (oneDistrict 2) 7000 insertionOrder) ∧
      ¬DistrictCycle 2 firstDistrict
        (EvalClient.createHgfrTable (oneDistrict 2) (firstDistrictList 2) insertionOrder) := by
  constructor <;> intro hcycle <;>
    obtain ⟨ring, rings, htables, successor, _, hsuccessor, _⟩ := hcycle 0 (by decide)
  · have hnone : ((BaseApp.formStructure (oneDistrict 2) 7000 insertionOrder
        (memberId firstDistrict 0)).toOption.bind List.head?).map Ring.successor = some none := by
      decide +kernel
    rw [htables] at hnone
    simp [Except.toOption, hsuccessor] at hnone
  · have hnone : ((EvalClient.createHgfrTable (oneDistrict 2) (firstDistrictList 2) insertionOrder
        (memberId firstDistrict 0)).toOption.bind List.head?).map Ring.successor = some none := by
      decide +kernel
    rw [htables] at hnone
    simp [Except.toOption, hsuccessor] at hnone

end Hgfrr
