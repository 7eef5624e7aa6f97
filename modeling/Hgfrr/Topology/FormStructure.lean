import Hgfrr.Topology.Formation

/-!
# The tables of a node

Forming the structure never fails on an id that is long enough. The node of some
coordinates gets a ring for each level that the regions give it one for, as far
as the numbers of the regions below fit their segments.
-/

namespace Hgfrr

open Coords

theorem exists_suffixOf (level : ℕ) {id : Str} (h : idSingleStart ≤ id.length) :
    ∃ rest, suffixOf level id = .ok rest ∧ idSingleStart ≤ rest.length + idStart level := by
  cases level with
  | zero =>
      refine ⟨_, substr_of_le h, ?_⟩
      change idSingleStart ≤ _ + idSingleStart
      omega
  | succ level =>
      refine ⟨_, if_pos ((idStart_le _).trans h), ?_⟩
      rw [List.length_drop]
      omega

theorem length_of_suffixOf {level : ℕ} {id rest : Str} (h : suffixOf level id = .ok rest)
    (hlong : idSingleStart ≤ id.length) : idSingleStart - idStart level ≤ rest.length := by
  obtain ⟨rest', hrest', hlength⟩ := exists_suffixOf level hlong
  obtain rfl := Except.ok.inj (hrest'.symm.trans h)
  omega

/-- A builder that takes all long ids, whether it knows them or not. -/
def TableBuilder.TakesLongIds (builder : TableBuilder) : Prop :=
  ∀ id, idSingleStart ≤ id.length → ∃ made, builder.mkNode id = .ok made

/-- A level of long ids can always be formed. -/
theorem TableBuilder.exists_contactLevel {builder : TableBuilder} (htakes : builder.TakesLongIds)
    (hself : idSingleStart ≤ builder.selfId.length) {level : ℕ} (hlevel : level < 5)
    (ringLevel regions limit : ℕ) {list : List Node} (before : List Node)
    (hlist : ∀ node ∈ list, BaseApp.LongId node) :
    ∃ ring next, builder.contactLevel ringLevel regions limit (idStart (level + 1))
      (idLen (level + 1)) (suffixOf level) list before = .ok (ring, next) := by
  have hstart := idStart_add_idLen (l := level) (by omega)
  have htake : (builder.selfId.take (idStart (level + 1))).length = idStart (level + 1) := by
    rw [List.length_take]
    exact min_eq_left ((idStart_le _).trans hself)
  have hrows : ∀ i ∈ List.range regions, ∃ row,
      (list.mapM fun contactNode => do
        let rest ← suffixOf level contactNode.id
        builder.mkNode
          (builder.selfId.take (idStart (level + 1)) ++ setw (idLen (level + 1)) i ++ rest)) =
        .ok row := by
    intro i _
    refine Except.exists_mapM_ok_iff.mpr fun contactNode hcontact => ?_
    obtain ⟨rest, hrest, hlong⟩ := exists_suffixOf level (hlist contactNode hcontact)
    have hwidth : idLen (level + 1) ≤ (setw (idLen (level + 1)) i).length :=
      Decimal.width_le_length_padded _ _
    rw [hrest]
    refine htakes _ ?_
    simp only [List.length_append, htake]
    omega
  obtain ⟨made, hmade⟩ := Except.exists_mapM_ok_iff.mpr hrows
  unfold TableBuilder.contactLevel
  exact ⟨_, _, Except.bind_eq_ok.mpr ⟨_, substr_of_le (Nat.zero_le _),
    Except.bind_eq_ok.mpr ⟨made, hmade, rfl⟩⟩⟩

namespace BaseApp

variable {p : Topology} {startingPortNumber : ℕ} {order : MapOrder} {selfId : Str}

/-- The node of an id. -/
def localNode (p : Topology) (startingPortNumber : ℕ) (id : Str) : Node :=
  ⟨id, "127.0.0.1".toList, (portOf startingPortNumber id p).toOption.getD 0⟩

theorem exists_portOf (p : Topology) (startingPortNumber : ℕ) {id : Str}
    (h : idSingleStart ≤ id.length) :
    ∃ port, portOf startingPortNumber id p = .ok port := by
  have hsubstr (start len : ℕ) (hstart : start ≤ idSingleStart) :
      substr id start len = .ok ((id.drop start).take len) := substr_of_le (hstart.trans h)
  rw [portOf, convertIDStringToInt, substrFrom, if_pos h, hsubstr _ _ (by decide),
    hsubstr _ _ (by decide), hsubstr _ _ (by decide), hsubstr _ _ (by decide),
    hsubstr _ _ (by decide)]
  exact ⟨_, rfl⟩

theorem builder_names (p : Topology) (startingPortNumber : ℕ) (order : MapOrder) (selfId : Str) :
    (builder p startingPortNumber order selfId).Names (localNode p startingPortNumber)
      fun id => idSingleStart ≤ id.length where
  id_eq _ := rfl
  mkNode_eq := by
    intro id h
    obtain ⟨port, hport⟩ := exists_portOf p startingPortNumber h
    simp [builder, localNode, hport, Except.map, Except.toOption]

theorem builder_takesLongIds (p : Topology) (startingPortNumber : ℕ) (order : MapOrder)
    (selfId : Str) : (builder p startingPortNumber order selfId).TakesLongIds := fun id h =>
  ⟨_, (builder_names p startingPortNumber order selfId).mkNode_eq id h⟩

/-! ## The levels -/

/-- The levels above the lowest. -/
theorem levelsInUse_eq : levelsInUse p startingPortNumber order selfId =
    (List.range p.top).map fun level list =>
      (builder p startingPortNumber order selfId).levelAt p level list [] := by
  unfold levelsInUse Topology.top
  split_ifs <;> rfl

theorem exists_climb {good : Node → Prop}
    {levels : List (List Node → Except Fault (Ring × List Node))}
    (hlevels : ∀ level ∈ levels, ∀ list, (∀ node ∈ list, good node) →
      ∃ ring next, level list = .ok (ring, next) ∧ ∀ node ∈ next, good node)
    {list : List Node} (hlist : ∀ node ∈ list, good node) :
    ∃ rings, climb p startingPortNumber order selfId levels list = .ok rings := by
  induction levels generalizing list with
  | nil => exact ⟨[], rfl⟩
  | cons level levels ih =>
      have hrest := fun level hlevel => hlevels level (List.mem_cons_of_mem _ hlevel)
      unfold climb
      split
      next =>
        obtain ⟨ring, next, hring, hnext⟩ := hlevels level (by simp) list hlist
        obtain ⟨above, habove⟩ := ih hrest fun node (hnode : node ∈ order.iterate next) =>
          hnext node (mem_of_mem_iterate hnode)
        exact ⟨ring :: above, Except.bind_eq_ok.mpr ⟨_, hring,
          Except.bind_eq_ok.mpr ⟨above, habove, rfl⟩⟩⟩
      next => exact ih hrest hlist

/-- The ids of the lowest ring are long, whatever the own id is. -/
theorem length_mem_peerIds (hself : idSingleStart ≤ selfId.length) {id : Str}
    (hid : id ∈ (builder p startingPortNumber order selfId).peerIds p.numNodesInDist) :
    idSingleStart ≤ id.length := by
  obtain ⟨i, _, rfl⟩ := List.mem_map.mp hid
  have htake : (selfId.take idSingleStart).length = idSingleStart := by simpa using hself
  simp only [List.length_append, builder, htake]
  omega

/-- Every long id has tables. -/
theorem exists_formStructure (p : Topology) (startingPortNumber : ℕ) (order : MapOrder)
    (hself : idSingleStart ≤ selfId.length) :
    ∃ rings, formStructure p startingPortNumber order selfId = .ok rings := by
  obtain ⟨ring, hring, _⟩ := TableBuilder.peerLevel_eq
    (builder_names p startingPortNumber order selfId) _ p.numCnodesInDist hself
    fun id => length_mem_peerIds hself
  have hlevels : ∀ level ∈ levelsInUse p startingPortNumber order selfId, ∀ list,
      (∀ node ∈ list, LongId node) → ∃ ring next, level list = .ok (ring, next) ∧
        ∀ node ∈ next, LongId node := by
    intro level hlevel list hlist
    have hmem := hlevel
    rw [levelsInUse_eq] at hmem
    obtain ⟨l, hl, rfl⟩ := List.mem_map.mp hmem
    have hfive : l < 5 := (List.mem_range.mp hl).trans_le Topology.top_le
    obtain ⟨ring, next, hring⟩ := TableBuilder.exists_contactLevel
      (builder_takesLongIds p startingPortNumber order selfId) hself hfive (l + 1)
      (p.regionCount (l + 1)) (p.contactLimit (l + 1)) [] hlist
    exact ⟨ring, next, hring, (longId_levelsInUse hself hlevel hlist hring).2⟩
  have hlist : ∀ node ∈ (((builder p startingPortNumber order selfId).peerIds
      p.numNodesInDist).take p.numCnodesInDist).map (localNode p startingPortNumber),
      LongId node := by
    intro node hnode
    obtain ⟨id, hid, rfl⟩ := List.mem_map.mp hnode
    exact length_mem_peerIds hself (List.mem_of_mem_take hid)
  obtain ⟨rings, hrings⟩ := exists_climb hlevels hlist
  exact ⟨ring :: rings, Except.bind_eq_ok.mpr ⟨_, hring,
    Except.bind_eq_ok.mpr ⟨rings, hrings, rfl⟩⟩⟩

/-! ## The rings that there are -/

theorem climb_of_not_isAmong {levels : List (List Node → Except Fault (Ring × List Node))}
    {list : List Node} (h : (builder p startingPortNumber order selfId).isAmong list = false) :
    climb p startingPortNumber order selfId levels list = .ok [] := by
  induction levels with
  | nil => rfl
  | cons level levels ih =>
      rw [climb, if_neg (by simp [h]), ih]

section Climb

variable {top : ℕ} {x : Coords} (hR : (p.regionsUpTo top order).Keyed) (htop : top ≤ 5)
  (hfit : p.NumbersFit top) (hx : (p.regionsUpTo top order).Member x) (htext : FitsText x)
include hR htop hfit hx htext

/-- From the contact nodes of a ring on, the climb gives the rings of the regions. -/
theorem climb_text (above : List (List Node → Except Fault (Ring × List Node))) {level n : ℕ}
    (hn : level + n = top) {rings : List Ring}
    (h : climb p startingPortNumber order (text x)
      (((List.range' level n).map fun level list =>
        (builder p startingPortNumber order (text x)).levelAt p level list []) ++ above)
      ((((p.regionsUpTo top order).contacts level x).map text).map
        (localNode p startingPortNumber)) = .ok rings) :
    ∀ k < n, ((p.regionsUpTo top order).HasRing (level + 1 + k) x → ∃ ring, rings[k]? = some ring ∧
        ring.Shows (localNode p startingPortNumber) (level + 1 + k)
          (((p.regionsUpTo top order).peers (level + 1 + k) x).map text)
          (((p.regionsUpTo top order).kept (level + 1 + k) x).map text)) ∧
      (¬(p.regionsUpTo top order).HasRing (level + 1 + k) x → rings[k]? = none) := by
  induction n generalizing level rings with
  | zero => exact fun k hk => absurd hk (Nat.not_lt_zero k)
  | succ n ih =>
      have hamong := TableBuilder.isAmong_text rfl
        (builder_names p startingPortNumber order (text x)) hR hx level
      by_cases hmem : x ∈ (p.regionsUpTo top order).contacts level x
      · obtain ⟨ring, hring, hshows⟩ := TableBuilder.levelAt_text rfl
          (builder_names p startingPortNumber order (text x))
          (fun y _ => le_trans (by decide) (le_length_text y)) hR hfit hx htext
          (by omega : level < top) htop []
        rw [foldl_setInsert_of_nodup (by simpa using Topology.nodup_kept_text hR hx (level + 1)),
          List.nil_append] at hring hshows
        rw [List.range'_succ, List.map_cons, List.cons_append, climb, if_pos (hamong.mpr hmem)] at h
        obtain ⟨⟨ring', next⟩, hring', h⟩ := Except.bind_eq_ok.mp h
        obtain ⟨rfl, rfl⟩ := Prod.mk.inj (Except.ok.inj (hring.symm.trans hring'))
        obtain ⟨others, hothers, h⟩ := Except.bind_eq_ok.mp h
        obtain rfl := Except.ok.inj h
        rw [iterate_kept_text fun _ => rfl] at hothers
        have hsucc : (p.regionsUpTo top order).HasRing (level + 1) x := ⟨by
          change level + 1 ≤ top
          omega, hmem⟩
        intro k hk
        cases k with
        | zero => exact ⟨fun _ => ⟨ring, rfl, hshows⟩, fun hnot => absurd hsucc hnot⟩
        | succ k =>
            have hk := ih (by omega) hothers k (by omega)
            rwa [show level + 1 + 1 + k = level + 1 + (k + 1) by omega] at hk
      · rw [climb_of_not_isAmong (Bool.eq_false_iff.mpr fun htrue => hmem (hamong.mp htrue))] at h
        obtain rfl := Except.ok.inj h
        intro k hk
        exact ⟨fun hring => absurd (hring.mem_contacts (by omega)) hmem, fun _ => rfl⟩

/-- The tables of a node of the network, as far up as the regions reach. -/
theorem formStructure_text (hused : top ≤ p.top) {rings : List Ring}
    (h : formStructure p startingPortNumber order (text x) = .ok rings) :
    ∀ level ≤ top, ((p.regionsUpTo top order).HasRing level x → ∃ ring, rings[level]? = some ring ∧
        ring.Shows (localNode p startingPortNumber) level
          (((p.regionsUpTo top order).peers level x).map text)
          (((p.regionsUpTo top order).kept level x).map text)) ∧
      (¬(p.regionsUpTo top order).HasRing level x → rings[level]? = none) := by
  obtain ⟨ring, hring, hshows⟩ := TableBuilder.peerLevel_text rfl
    (builder_names p startingPortNumber order (text x))
    (fun y _ => le_trans (by decide) (le_length_text y)) hx htext
  obtain ⟨⟨ring', list⟩, hring', h⟩ := Except.bind_eq_ok.mp h
  obtain ⟨rfl, rfl⟩ := Prod.mk.inj (Except.ok.inj (hring.symm.trans hring'))
  obtain ⟨above, habove, h⟩ := Except.bind_eq_ok.mp h
  obtain rfl := Except.ok.inj h
  obtain ⟨rest, hrest⟩ := Nat.exists_eq_add_of_le hused
  have hlevels : List.range p.top = List.range' 0 top ++ List.range' top rest := by
    rw [List.range_eq_range', hrest, ← List.range'_append_1, Nat.zero_add]
  rw [levelsInUse_eq, hlevels, List.map_append] at habove
  have hclimb := climb_text hR htop hfit hx htext _ (Nat.zero_add top) habove
  intro level hlevel
  cases level with
  | zero => exact ⟨fun _ => ⟨ring, rfl, hshows⟩, fun hnot => absurd (Regions.hasRing_zero x) hnot⟩
  | succ level =>
      have hlevel := hclimb level (by omega)
      rwa [Nat.zero_add, Nat.add_comm 1 level] at hlevel

end Climb

/-! ## All levels -/

theorem length_formStructure {rings : List Ring}
    (h : formStructure p startingPortNumber order selfId = .ok rings) :
    rings.length ≤ p.top + 1 := by
  obtain ⟨⟨ring, list⟩, _, h⟩ := Except.bind_eq_ok.mp h
  obtain ⟨above, habove, h⟩ := Except.bind_eq_ok.mp h
  obtain rfl := Except.ok.inj h
  have hlength := (mem_climb (fun _ _ _ _ _ _ _ => ⟨fun _ _ => trivial, fun _ _ => trivial⟩)
    (fun _ _ => trivial) habove).1
  rw [levelsInUse_eq, List.length_map, List.length_range] at hlength
  simpa using hlength

/-- The tables of a node of the network. -/
theorem rings_text (hfit : p.NumbersFit (p.top + 1)) {x : Coords}
    (hx : p.Member x) {rings : List Ring}
    (h : formStructure p startingPortNumber order (text x) = .ok rings) (level : ℕ) :
    ((p.regions order).HasRing level x → ∃ ring, rings[level]? = some ring ∧
        ring.Shows (localNode p startingPortNumber) level
          (((p.regions order).peers level x).map text)
          (((p.regions order).kept level x).map text)) ∧
      (¬(p.regions order).HasRing level x → rings[level]? = none) := by
  have hbelow : p.NumbersFit p.top := hfit.mono p.top.le_succ
  have hmember : (p.regionsUpTo p.top order).Member x := Topology.member_iff.mpr hx
  rcases Nat.lt_or_ge p.top level with hlt | hle
  · refine ⟨fun hring => absurd hring.1 (not_le.mpr hlt), fun _ => ?_⟩
    have hlength := length_formStructure h
    exact List.getElem?_eq_none (by omega)
  · exact formStructure_text (hfit.keyed order) Topology.top_le hbelow
      hmember (Topology.fitsText_of_member hmember hfit) le_rfl h level hle

/-- A ring that is there is one that the regions have. -/
theorem ring_of_getElem? (hfit : p.NumbersFit (p.top + 1)) {x : Coords} (hx : p.Member x)
    {rings : List Ring} (h : formStructure p startingPortNumber order (text x) = .ok rings)
    {level : ℕ} {ring : Ring} (hget : rings[level]? = some ring) :
    (p.regions order).HasRing level x ∧ ring.Shows (localNode p startingPortNumber) level
      (((p.regions order).peers level x).map text) (((p.regions order).kept level x).map text) := by
  obtain ⟨hthere, hnot⟩ := rings_text hfit hx h level
  by_cases hhas : (p.regions order).HasRing level x
  · obtain ⟨other, hother, hshows⟩ := hthere hhas
    obtain rfl := Option.some.inj (hget.symm.trans hother)
    exact ⟨hhas, hshows⟩
  · exact nomatch hget.symm.trans (hnot hhas)

end BaseApp

end Hgfrr
