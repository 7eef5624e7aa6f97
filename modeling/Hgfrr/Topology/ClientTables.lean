import Hgfrr.Model.EvalTables
import Hgfrr.Topology.FormStructure

/-!
# Two builders of tables

An evaluation client builds its tables block by block, where a node of the network climbs
from level to level. The client counts the cities of a state with another divisor, does
not stop before the levels of districts and cities, and hands no contact nodes on from
the ring of cities. Both give the same tables where none of this makes a difference.
-/

namespace Hgfrr

open Coords

/-- Two rings with the same peers in the same order, and the same contact nodes. -/
structure Ring.SameIds (ring ring' : Ring) : Prop where
  ringLevel : ring.ringLevel = ring'.ringLevel
  peerIds : ring.peerIds = ring'.peerIds
  contacts : ∀ id, id ∈ ring.contactNodes.map Prod.fst ↔ id ∈ ring'.contactNodes.map Prod.fst

theorem Ring.Shows.sameIds {ring ring' : Ring} {node node' : Str → Node} {level : ℕ}
    {peers contacts : List Str} (h : ring.Shows node level peers contacts)
    (h' : ring'.Shows node' level peers contacts) (hname : ∀ id, (node id).id = id)
    (hname' : ∀ id, (node' id).id = id) : ring.SameIds ring' where
  ringLevel := h.ringLevel.trans h'.ringLevel.symm
  peerIds := (h.peerIds_eq hname).trans (h'.peerIds_eq hname').symm
  contacts id := by rw [h.mem_contactKeys, h'.mem_contactKeys]

theorem Ring.Shows.of_perm {ring : Ring} {node : Str → Node} {level : ℕ}
    {peers contacts contacts' : List Str} (h : ring.Shows node level peers contacts)
    (hperm : contacts.Perm contacts') : ring.Shows node level peers contacts' :=
  ⟨h.ringLevel, h.peerList, h.peerSet, h.contactNodes.trans (hperm.map _)⟩

/-- Inserting all items into a set of some of them gives all items. -/
theorem foldl_setInsert_perm {α : Type*} [DecidableEq α] {items before : List α}
    (hitems : items.Nodup) (hbefore : before.Nodup) (hsub : ∀ a ∈ before, a ∈ items) :
    (items.foldl (fun set item => setInsert item set) before).Perm items := by
  rw [List.perm_ext_iff_of_nodup (nodup_foldl_setInsert hbefore) hitems]
  exact fun a => mem_foldl_setInsert.trans (or_iff_left_of_imp (hsub a))

namespace EvalClient

section Blocks

variable {builder : TableBuilder} {exchange : Bool} {state state' : TableState}
  {level : List Node → List Node → Except Fault (Ring × List Node)}

theorem block_of_not_isAmong (h : builder.isAmong state.contactNodes = false) :
    block builder exchange level state = .ok state := by
  rw [block, if_neg (by simp [h])]
  rfl

theorem block_of_isAmong (exchange : Bool) (h : builder.isAmong state.contactNodes = true)
    {ring : Ring} {next : List Node}
    (hlevel : level state.contactNodes state.contactNodesNext = .ok (ring, next)) :
    block builder exchange level state = .ok
      (if exchange then ⟨state.tables ++ [ring], builder.order.iterate next, []⟩
      else ⟨state.tables ++ [ring], state.contactNodes, next⟩) := by
  rw [block, if_pos h, hlevel]
  cases exchange <;> rfl

/-- A block only adds to the tables. -/
theorem prefix_of_block (h : block builder exchange level state = .ok state') :
    state.tables <+: state'.tables := by
  unfold block at h
  split at h
  · obtain ⟨⟨ring, next⟩, _, h⟩ := Except.bind_eq_ok.mp h
    cases exchange <;> obtain rfl := Except.ok.inj h <;> exact List.prefix_append _ _
  · obtain rfl := Except.ok.inj h
    exact List.prefix_refl _

end Blocks

/-- The node of an id, with the address that the list has for it. -/
def listedNode (nodeList : NodeList) (id : Str) : Node :=
  let address := (nodeList.lookup id).getD ([], 0)
  ⟨id, address.1, address.2⟩

theorem tableBuilder_names (nodeList : NodeList) (order : MapOrder) (selfId : Str) :
    (tableBuilder nodeList order selfId).Names (listedNode nodeList)
      fun id => ∃ address, nodeList.lookup id = some address where
  id_eq _ := rfl
  mkNode_eq := by
    rintro id ⟨address, haddress⟩
    simp [tableBuilder, listedNode, haddress]

theorem tableBuilder_namesNodes (nodeList : NodeList) (order : MapOrder) (selfId : Str) :
    (tableBuilder nodeList order selfId).NamesNodes := by
  intro id node h
  obtain ⟨address, _, rfl⟩ := Option.map_eq_some_iff.mp (Except.ok.inj h)
  rfl

theorem tableBuilder_takesLongIds (nodeList : NodeList) (order : MapOrder) (selfId : Str) :
    (tableBuilder nodeList order selfId).TakesLongIds := fun _ _ => ⟨_, rfl⟩

/-! ## Tables of any long id -/

open BaseApp (LongId)

/-- The first ring is there, and all contact nodes have long ids. -/
structure Formed (ring : Ring) (state : TableState) : Prop where
  head : ∃ rings, state.tables = ring :: rings
  contactNodes : ∀ node ∈ state.contactNodes, LongId node
  contactNodesNext : ∀ node ∈ state.contactNodesNext, LongId node

section Formed

variable {nodeList : NodeList} {order : MapOrder} {selfId : Str} {ring : Ring}
  {state : TableState}

/-- A block forms its level, if the own node is among the contact nodes. -/
theorem Formed.block (h : Formed ring state) (hself : idSingleStart ≤ selfId.length)
    (exchange : Bool) {level : ℕ} (hlevel : level < 5) (ringLevel regions limit : ℕ) :
    ∃ state', EvalClient.block (tableBuilder nodeList order selfId) exchange
        ((tableBuilder nodeList order selfId).contactLevel ringLevel regions limit
          (idStart (level + 1)) (idLen (level + 1)) (suffixOf level)) state = .ok state' ∧
      Formed ring state' := by
  cases hamong : (tableBuilder nodeList order selfId).isAmong state.contactNodes with
  | false => exact ⟨state, block_of_not_isAmong hamong, h⟩
  | true =>
      obtain ⟨other, next, hother⟩ := TableBuilder.exists_contactLevel
        (tableBuilder_takesLongIds nodeList order selfId) hself hlevel ringLevel regions limit
        state.contactNodesNext h.contactNodes
      have hstart := idStart_add_idLen (l := level) (by omega)
      have hnext := (TableBuilder.longId_contactLevel
        (tableBuilder_namesNodes nodeList order selfId)
        ((idStart_le _).trans hself) hstart (idStart_le _)
        (fun _ _ => length_of_suffixOf)
        h.contactNodes h.contactNodesNext hother).2
      refine ⟨_, block_of_isAmong exchange hamong hother, ?_⟩
      obtain ⟨rings, hrings⟩ := h.head
      cases exchange with
      | false =>
          exact ⟨⟨rings ++ [other], congrArg (· ++ [other]) hrings⟩, h.contactNodes, hnext⟩
      | true =>
          refine ⟨⟨rings ++ [other], congrArg (· ++ [other]) hrings⟩, fun node hnode => ?_,
            by simp⟩
          exact hnext node (mem_of_mem_iterate hnode)

/-- The tables of a client start with the ring of its district. -/
theorem exists_createHgfrTable (p : Topology) (hself : idSingleStart ≤ selfId.length)
    {contactNodes : List Node}
    (hpeer : (tableBuilder nodeList order selfId).peerLevel p.numNodesInDist p.numCnodesInDist =
      .ok (ring, contactNodes)) (hlong : ∀ node ∈ contactNodes, LongId node) :
    ∃ rings, createHgfrTable p nodeList order selfId = .ok (ring :: rings) := by
  have hformed : Formed ring ⟨[ring], contactNodes, []⟩ := ⟨⟨[], rfl⟩, hlong, by simp⟩
  obtain ⟨dist, hdist, hformed⟩ := hformed.block hself true (by decide : 0 < 5) 1 p.numDistsInCity
    p.numCnodesInCity
  obtain ⟨city, hcity, hformed⟩ := hformed.block hself false (by decide : 1 < 5) 2
    (p.numNodesInState / p.numCnodesInDist) p.numCnodesInState
  obtain ⟨state, hstate, hstates⟩ := hformed.block hself true (by decide : 2 < 5) 3
    p.numStatesInCountry p.numCnodesInState
  obtain ⟨country, hcountry, hcountries⟩ := hstates.block hself true (by decide : 3 < 5) 4
    p.numCountriesInContinent p.numCnodesInCountry
  obtain ⟨continent, hcontinent, hcontinents⟩ := hcountries.block hself false (by decide : 4 < 5) 5
    p.numContinents p.numCnodesInContinent
  suffices hsome : ∃ last, Formed ring last ∧
      createHgfrTable p nodeList order selfId = .ok last.tables by
    obtain ⟨last, ⟨⟨rings, hrings⟩, _, _⟩, hlast⟩ := hsome
    exact ⟨rings, hrings ▸ hlast⟩
  unfold createHgfrTable
  by_cases hzero : p.numNodesInCountry = 0
  · refine ⟨city, hformed, Except.bind_eq_ok.mpr ⟨_, hpeer, Except.bind_eq_ok.mpr ⟨_, hdist,
      Except.bind_eq_ok.mpr ⟨_, hcity, ?_⟩⟩⟩⟩
    rw [if_pos hzero]
    rfl
  by_cases hcontinents' : p.numNodesInContinent = 0
  · refine ⟨state, hstates, Except.bind_eq_ok.mpr ⟨_, hpeer, Except.bind_eq_ok.mpr ⟨_, hdist,
      Except.bind_eq_ok.mpr ⟨_, hcity, ?_⟩⟩⟩⟩
    rw [if_neg hzero]
    refine Except.bind_eq_ok.mpr ⟨_, hstate, ?_⟩
    rw [if_pos hcontinents']
    rfl
  · refine ⟨continent, hcontinents, Except.bind_eq_ok.mpr ⟨_, hpeer, ?_⟩⟩
    refine Except.bind_eq_ok.mpr ⟨_, hdist, Except.bind_eq_ok.mpr ⟨_, hcity, ?_⟩⟩
    rw [if_neg hzero]
    refine Except.bind_eq_ok.mpr ⟨_, hstate, ?_⟩
    rw [if_neg hcontinents']
    exact Except.bind_eq_ok.mpr ⟨_, hcountry, Except.bind_eq_ok.mpr ⟨_, hcontinent, rfl⟩⟩

end Formed

/-! ## One block after the other -/

/-- The rings that a node has in its regions, up to a level. -/
structure Tabled (p : Topology) (order : MapOrder) (nodeList : NodeList) (x : Coords) (level : ℕ)
    (tables : List Ring) : Prop where
  there : ∀ l ≤ level, (p.regions order).HasRing l x → ∃ ring, tables[l]? = some ring ∧
    ring.Shows (listedNode nodeList) l (((p.regions order).peers l x).map text)
      (((p.regions order).kept l x).map text)
  none : ∀ l, ¬(l ≤ level ∧ (p.regions order).HasRing l x) → tables[l]? = none

/-- How far a node has come after the block of a level. The map of the next contact nodes
may hold some already. -/
structure Climbed (p : Topology) (order : MapOrder) (nodeList : NodeList) (x : Coords) (level : ℕ)
    (before : List Str) (state : TableState) : Prop where
  tabled : Tabled p order nodeList x level state.tables
  among : (p.regions order).HasRing level x →
    state.contactNodes = (((p.regions order).contacts level x).map text).map (listedNode nodeList) ∧
      state.contactNodesNext = before.map (listedNode nodeList)
  notAmong : ¬(p.regions order).HasRing level x →
    (tableBuilder nodeList order (text x)).isAmong state.contactNodes = false

section Climbing

variable {p : Topology} {order : MapOrder} {nodeList : NodeList} {x : Coords} {level : ℕ}
  {before : List Str} {tables : List Ring} {state : TableState}

namespace Tabled

variable (h : Tabled p order nodeList x level tables)
include h

theorem length_eq (hring : (p.regions order).HasRing level x) : tables.length = level + 1 := by
  obtain ⟨ring, hget, _⟩ := h.there level le_rfl hring
  have hlt := (List.getElem?_eq_some_iff.mp hget).1
  have hle := List.getElem?_eq_none_iff.mp (h.none (level + 1) fun hnot => absurd hnot.1 (by omega))
  omega

theorem append (hring : (p.regions order).HasRing (level + 1) x) {ring : Ring}
    (hshows : ring.Shows (listedNode nodeList) (level + 1)
      (((p.regions order).peers (level + 1) x).map text)
      (((p.regions order).kept (level + 1) x).map text)) :
    Tabled p order nodeList x (level + 1) (tables ++ [ring]) := by
  have hlength := h.length_eq (hring.of_le level.le_succ)
  constructor
  · intro l hl hhas
    rcases hl.eq_or_lt with rfl | hlt
    · refine ⟨ring, ?_, hshows⟩
      rw [← hlength, List.getElem?_concat_length]
    · obtain ⟨other, hget, hother⟩ := h.there l (Nat.le_of_lt_succ hlt) hhas
      exact ⟨other, by rw [List.getElem?_append_left (by omega), hget], hother⟩
  · intro l hnot
    have hlt : level + 1 < l := by
      by_contra hle
      exact hnot ⟨not_lt.mp hle, hring.of_le (not_lt.mp hle)⟩
    apply List.getElem?_eq_none
    rw [List.length_append, List.length_singleton, hlength]
    omega

theorem skip (hring : ¬(p.regions order).HasRing (level + 1) x) :
    Tabled p order nodeList x (level + 1) tables := by
  constructor
  · intro l hl hhas
    rcases hl.eq_or_lt with rfl | hlt
    · exact absurd hhas hring
    · exact h.there l (Nat.le_of_lt_succ hlt) hhas
  · exact fun l hnot => h.none l fun hhas => hnot ⟨hhas.1.trans level.le_succ, hhas.2⟩

end Tabled

namespace Climbed

variable (h : Climbed p order nodeList x level before state) (hlevel : level < p.top)
  (hfit : p.NumbersFit (p.top + 1)) (hx : p.Member x)
  (hlist : ∀ id ∈ p.ids, ∃ address, nodeList.lookup id = some address)
include h

include hfit hx in
theorem isAmong_of_mem (hring : (p.regions order).HasRing level x)
    (hmem : x ∈ (p.regions order).contacts level x) :
    (tableBuilder nodeList order (text x)).isAmong state.contactNodes = true := by
  have hkeyed : (p.regions order).Keyed := hfit.keyed order
  rw [(h.among hring).1]
  exact (TableBuilder.isAmong_text rfl (tableBuilder_names nodeList order (text x)) hkeyed
    (Topology.member_iff.mpr hx) level).mpr hmem

include hlevel hfit hx in
theorem isAmong_of_not_hasRing (hring : ¬(p.regions order).HasRing (level + 1) x) :
    (tableBuilder nodeList order (text x)).isAmong state.contactNodes = false := by
  have hkeyed : (p.regions order).Keyed := hfit.keyed order
  by_cases hhas : (p.regions order).HasRing level x
  · rw [(h.among hhas).1]
    have hamong := TableBuilder.isAmong_text rfl (tableBuilder_names nodeList order (text x)) hkeyed
      (Topology.member_iff.mpr hx) level
    rw [Bool.eq_false_iff]
    exact fun htrue => hring (Regions.hasRing_succ_iff.mpr ⟨hlevel, hhas, hamong.mp htrue⟩)
  · exact h.notAmong hhas

include hlevel hfit hx hlist in
theorem block_of_hasRing (hring : (p.regions order).HasRing (level + 1) x)
    (hbefore : before.Nodup)
    (hsub : ∀ id ∈ before, id ∈ ((p.regions order).kept (level + 1) x).map text) (exchange : Bool) :
    ∃ (ring : Ring) (next : List Str), ring.Shows (listedNode nodeList) (level + 1)
        (((p.regions order).peers (level + 1) x).map text)
        (((p.regions order).kept (level + 1) x).map text) ∧
      next.Perm (((p.regions order).kept (level + 1) x).map text) ∧
      block (tableBuilder nodeList order (text x)) exchange
        ((tableBuilder nodeList order (text x)).levelAt p level) state = .ok
          (if exchange then
            ⟨state.tables ++ [ring], order.iterate (next.map (listedNode nodeList)), []⟩
          else ⟨state.tables ++ [ring],
            (((p.regions order).contacts level x).map text).map (listedNode nodeList),
            next.map (listedNode nodeList)⟩) := by
  have hbelow : p.NumbersFit p.top := hfit.mono p.top.le_succ
  have hkeyed : (p.regions order).Keyed := hfit.keyed order
  have hmember : (p.regions order).Member x := Topology.member_iff.mpr hx
  have hnames := tableBuilder_names nodeList order (text x)
  obtain ⟨hnodes, hnext⟩ := h.among (hring.of_le level.le_succ)
  obtain ⟨ring, hlevelAt, hshows⟩ := TableBuilder.levelAt_text rfl hnames
    (fun y hy => hlist _ ⟨y, Topology.member_iff.mp hy, rfl⟩) hkeyed hbelow hmember
    (Topology.fitsText_of_member hmember hfit) hlevel Topology.top_le before
  have hperm := foldl_setInsert_perm (Topology.nodup_kept_text hkeyed hmember (level + 1)) hbefore
    hsub
  have hamong := h.isAmong_of_mem hfit hx (hring.of_le level.le_succ)
    (hring.mem_contacts level.lt_succ_self)
  refine ⟨ring, _, hshows.of_perm hperm, hperm, ?_⟩
  have hblock := block_of_isAmong exchange hamong
    (show (tableBuilder nodeList order (text x)).levelAt p level state.contactNodes
      state.contactNodesNext = _ by rw [hnodes, hnext]; exact hlevelAt)
  rw [hblock, hnodes]
  rfl

include hlevel hfit hx hlist

/-- A block that hands the contact nodes on. -/
theorem exchange (hkeys : order.KeyDetermined) (hbefore : before.Nodup)
    (hsub : (p.regions order).HasRing (level + 1) x → ∀ id ∈ before,
      id ∈ ((p.regions order).kept (level + 1) x).map text) :
    ∃ state', block (tableBuilder nodeList order (text x)) true
        ((tableBuilder nodeList order (text x)).levelAt p level) state = .ok state' ∧
      Climbed p order nodeList x (level + 1) [] state' := by
  by_cases hring : (p.regions order).HasRing (level + 1) x
  · obtain ⟨ring, next, hshows, hperm, hblock⟩ :=
      h.block_of_hasRing hlevel hfit hx hlist hring hbefore (hsub hring) true
    refine ⟨_, hblock, h.tabled.append hring hshows, fun _ => ⟨?_, rfl⟩, absurd hring⟩
    show order.iterate (next.map (listedNode nodeList)) = _
    rw [iterate_map_node fun _ => rfl, hkeys _ _ hperm, Regions.contacts_succ]
    exact congrArg (List.map (listedNode nodeList)) (Arrange.map_arrange (order.perm _)).symm
  · have hnot := h.isAmong_of_not_hasRing hlevel hfit hx hring
    exact ⟨state, block_of_not_isAmong hnot, h.tabled.skip hring, fun hhas => absurd hhas hring,
      fun _ => hnot⟩

/-- A block that hands nothing on. The contact nodes stay right where those of the two
levels are the same. -/
theorem keep (hbefore : before.Nodup)
    (hsub : (p.regions order).HasRing (level + 1) x → ∀ id ∈ before,
      id ∈ ((p.regions order).kept (level + 1) x).map text) :
    ∃ state', block (tableBuilder nodeList order (text x)) false
        ((tableBuilder nodeList order (text x)).levelAt p level) state = .ok state' ∧
      Tabled p order nodeList x (level + 1) state'.tables ∧
      ((p.regions order).contacts (level + 1) x = (p.regions order).contacts level x →
        ∃ next, next.Nodup ∧ (∀ id ∈ next, id ∈ ((p.regions order).kept (level + 1) x).map text) ∧
          Climbed p order nodeList x (level + 1) next state') := by
  by_cases hring : (p.regions order).HasRing (level + 1) x
  · obtain ⟨ring, next, hshows, hperm, hblock⟩ :=
      h.block_of_hasRing hlevel hfit hx hlist hring hbefore (hsub hring) false
    have htabled := h.tabled.append hring hshows
    have hkeyed : (p.regions order).Keyed := hfit.keyed order
    have hnodup := Topology.nodup_kept_text hkeyed (Topology.member_iff.mpr hx) (level + 1)
    refine ⟨_, hblock, htabled, fun hsame => ⟨next, hperm.nodup_iff.mpr hnodup,
      fun _ hid => hperm.subset hid, htabled, fun _ => ⟨?_, rfl⟩, absurd hring⟩⟩
    rw [hsame]
    rfl
  · have htabled := h.tabled.skip hring
    have hnot := h.isAmong_of_not_hasRing hlevel hfit hx hring
    exact ⟨state, block_of_not_isAmong hnot, htabled, fun _ => ⟨[], List.nodup_nil, by simp,
      htabled, fun hhas => absurd hhas hring, fun _ => hnot⟩⟩

end Climbed

end Climbing

/-! ## Where both build the same -/

/-- The contact nodes of a ring of districts. -/
def cityContacts (p : Topology) : ℕ :=
  min p.numCnodesInCity (p.numDistsInCity * min p.numCnodesInDist p.numNodesInDist)

/-- The cities come out alike, and with states in use, all nodes of the ring of states are
contact nodes of a state that is a single city. -/
structure BuildsAlike (p : Topology) : Prop where
  city_ne_zero : p.numNodesInCity ≠ 0
  state_ne_zero : p.numNodesInState ≠ 0
  cities : p.numNodesInState / p.numCnodesInDist = p.numCitiesInState
  single : p.numNodesInCountry ≠ 0 → p.numCitiesInState = 1
  all : p.numNodesInCountry ≠ 0 → p.numStatesInCountry * cityContacts p ≤ p.numCnodesInState

theorem width_one (p : Topology) (order : MapOrder) (htop : 1 ≤ p.top) :
    (p.regions order).width 1 = cityContacts p := by
  rw [Regions.width, Regions.width, Topology.regions, Topology.counts_of_le htop,
    Topology.counts_of_le (Nat.zero_le _)]
  rfl

namespace BuildsAlike

variable {p : Topology} {order : MapOrder} {x : Coords} (h : BuildsAlike p)
include h

theorem two_le_top : 2 ≤ p.top := Topology.two_le_top h.city_ne_zero h.state_ne_zero

theorem three_le_top (hcountry : p.numNodesInCountry ≠ 0) : 3 ≤ p.top :=
  Topology.three_le_top h.city_ne_zero h.state_ne_zero hcountry

section Countries

variable (hused : p.Used) (hcountry : p.numNodesInCountry ≠ 0)
include hused hcountry

theorem cityContacts_le : cityContacts p ≤ p.numCnodesInState := by
  have hpos : 0 < p.numStatesInCountry := hused.regions 3 (h.three_le_top hcountry)
  exact (Nat.le_mul_of_pos_left _ hpos).trans (h.all hcountry)

theorem width_two : (p.regions order).width 2 = cityContacts p := by
  have htop := h.three_le_top hcountry
  rw [Regions.width, width_one p order (by omega), Topology.regions,
    Topology.counts_of_le (by omega)]
  change min p.numCnodesInState (p.numCitiesInState * _) = _
  rw [h.single hcountry, Nat.one_mul]
  exact min_eq_right (h.cityContacts_le hused hcountry)

variable (hfit : p.NumbersFit (p.top + 1)) (hx : p.Member x)
include hfit hx

theorem contacts_two (hkeys : order.KeyDetermined) :
    (p.regions order).contacts 2 x = (p.regions order).contacts 1 x := by
  have hkeyed : (p.regions order).Keyed := hfit.keyed order
  have htop := h.three_le_top hcountry
  apply Regions.contacts_succ_eq hkeyed (Topology.member_iff.mpr hx) hkeys
  · exact (Topology.counts_of_le (by omega)).trans (h.single hcountry)
  · rw [width_one p order (by omega)]
    exact h.cityContacts_le hused hcountry

theorem kept_three : (p.regions order).kept 3 x = (p.regions order).peers 3 x := by
  have hkeyed : (p.regions order).Keyed := hfit.keyed order
  apply Regions.kept_eq_peers hkeyed (Topology.member_iff.mpr hx)
  rw [h.width_two hused hcountry, Topology.regions,
    Topology.counts_of_le (h.three_le_top hcountry)]
  exact h.all hcountry

end Countries

end BuildsAlike

section Sufficient

variable {p : Topology} {order : MapOrder} {nodeList : NodeList} {x : Coords}
  (hfit : p.NumbersFit (p.top + 1)) (hx : p.Member x)
  (hlist : ∀ id ∈ p.ids, ∃ address, nodeList.lookup id = some address)
include hfit hx hlist

/-- The tables that a client starts with. -/
theorem exists_peerLevel : ∃ ring contactNodes,
    (tableBuilder nodeList order (text x)).peerLevel p.numNodesInDist p.numCnodesInDist =
        .ok (ring, contactNodes) ∧
      Climbed p order nodeList x 0 [] ⟨[ring], contactNodes, []⟩ := by
  have hmember : (p.regions order).Member x := Topology.member_iff.mpr hx
  obtain ⟨ring, hring, hshows⟩ := TableBuilder.peerLevel_text rfl
    (tableBuilder_names nodeList order (text x))
    (fun y hy => hlist _ ⟨y, Topology.member_iff.mp hy, rfl⟩) hmember
    (Topology.fitsText_of_member hmember hfit)
  have hzero := Regions.hasRing_zero (R := p.regions order) x
  refine ⟨ring, _, hring, ⟨fun l hl _ => ?_, fun l hl => ?_⟩, fun _ => ⟨rfl, rfl⟩, absurd hzero⟩
  · obtain rfl := Nat.le_zero.mp hl
    exact ⟨ring, rfl, hshows⟩
  · cases l with
    | zero => exact absurd ⟨le_rfl, hzero⟩ hl
    | succ l => rfl

theorem createHgfrTable_tabled (hused : p.Used) (halike : BuildsAlike p)
    (hkeys : order.KeyDetermined) :
    ∃ rings, createHgfrTable p nodeList order (text x) = .ok rings ∧
      Tabled p order nodeList x p.top rings := by
  have hkeyed : (p.regions order).Keyed := hfit.keyed order
  have hmember : (p.regions order).Member x := Topology.member_iff.mpr hx
  have htwo := halike.two_le_top
  obtain ⟨ring, nodes, hpeer, hpeers⟩ := exists_peerLevel hfit hx hlist
  obtain ⟨dist, hdist, hdists⟩ := hpeers.exchange (by omega) hfit hx hlist hkeys List.nodup_nil
    (by simp)
  obtain ⟨city, hcity, htabled, hcities⟩ := hdists.keep (by omega) hfit hx hlist List.nodup_nil
    (by simp)
  unfold createHgfrTable
  rw [halike.cities]
  by_cases hcountry : p.numNodesInCountry = 0
  · have htop : p.top = 2 := by
      simp [Topology.top, halike.city_ne_zero, halike.state_ne_zero, hcountry]
    refine ⟨city.tables, Except.bind_eq_ok.mpr ⟨_, hpeer, Except.bind_eq_ok.mpr ⟨_, hdist,
      Except.bind_eq_ok.mpr ⟨_, hcity, ?_⟩⟩⟩, htop ▸ htabled⟩
    rw [if_pos hcountry]
    rfl
  -- the contact nodes of the ring of districts are still there, and they are those of the ring
  -- of cities
  have hthree := halike.three_le_top hcountry
  obtain ⟨next, hnodup, hnext, hcities⟩ := hcities
    (halike.contacts_two hused hcountry hfit hx hkeys)
  obtain ⟨state, hstate, hstates⟩ := hcities.exchange (by omega) hfit hx hlist hkeys hnodup
    fun _ id hid => by
      obtain ⟨c, hc, rfl⟩ := List.mem_map.mp (hnext id hid)
      apply List.mem_map_of_mem
      rw [halike.kept_three hused hcountry hfit hx]
      exact Regions.mem_peers_succ hmember ((Regions.mem_contacts_iff hkeyed hmember).mpr hc)
  by_cases hcontinent : p.numNodesInContinent = 0
  · have htop : p.top = 3 := by
      simp [Topology.top, halike.city_ne_zero, halike.state_ne_zero, hcountry, hcontinent]
    refine ⟨state.tables, Except.bind_eq_ok.mpr ⟨_, hpeer, Except.bind_eq_ok.mpr ⟨_, hdist,
      Except.bind_eq_ok.mpr ⟨_, hcity, ?_⟩⟩⟩, htop ▸ hstates.tabled⟩
    rw [if_neg hcountry]
    refine Except.bind_eq_ok.mpr ⟨_, hstate, ?_⟩
    rw [if_pos hcontinent]
    rfl
  · have htop : p.top = 5 := by
      simp [Topology.top, halike.city_ne_zero, halike.state_ne_zero, hcountry, hcontinent]
    obtain ⟨country, hcountries, hclimbed⟩ := hstates.exchange (by omega) hfit hx hlist hkeys
      List.nodup_nil (by simp)
    obtain ⟨continent, hcontinents, htabled, _⟩ := hclimbed.keep (by omega) hfit hx hlist
      List.nodup_nil (by simp)
    refine ⟨continent.tables, Except.bind_eq_ok.mpr ⟨_, hpeer, Except.bind_eq_ok.mpr ⟨_, hdist,
      Except.bind_eq_ok.mpr ⟨_, hcity, ?_⟩⟩⟩, htop ▸ htabled⟩
    rw [if_neg hcountry]
    refine Except.bind_eq_ok.mpr ⟨_, hstate, ?_⟩
    rw [if_neg hcontinent]
    exact Except.bind_eq_ok.mpr ⟨_, hcountries, Except.bind_eq_ok.mpr ⟨_, hcontinents, rfl⟩⟩

end Sufficient

end EvalClient

end Hgfrr
