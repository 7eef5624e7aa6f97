import Hgfrr.Topology.Agreement
import Hgfrr.Topology.ClientTables

/-!
# When the two builders agree

The tables of the client are compared with those of a node of the network for all nodes.
Where a condition fails, the first node of a city or of the last state has different
tables.
-/

namespace Hgfrr

open Coords

theorem forall₂_iff_getElem? {α β : Type*} {r : α → β → Prop} {xs : List α} {ys : List β} :
    List.Forall₂ r xs ys ↔ ∀ k : ℕ, Option.Rel r xs[k]? ys[k]? := by
  constructor
  · intro h k
    induction h generalizing k with
    | nil => exact .none
    | cons hhead _ ih =>
        cases k with
        | zero => exact .some hhead
        | succ k => exact ih k
  · intro h
    induction xs generalizing ys with
    | nil =>
        cases ys with
        | nil => exact .nil
        | cons y ys => exact nomatch h 0
    | cons x xs ih =>
        cases ys with
        | nil => exact nomatch h 0
        | cons y ys =>
            have hhead := h 0
            simp only [List.getElem?_cons_zero] at hhead
            cases hhead with
            | some hr => exact .cons hr (ih fun k => h (k + 1))

theorem getElem?_of_prefix {α : Type*} {xs ys : List α} (h : xs <+: ys) {k : ℕ} {a : α}
    (hget : xs[k]? = some a) : ys[k]? = some a := by
  obtain ⟨rest, rfl⟩ := h
  rw [List.getElem?_append_left (List.getElem?_eq_some_iff.mp hget).1, hget]

namespace EvalClient

/-- Both builders give every node the same number of levels, and rings with the same
peers and contact nodes. -/
def TablesAgree (p : Topology) (startingPortNumber : ℕ) (order : MapOrder) (nodeList : NodeList) :
    Prop :=
  ∀ id ∈ p.ids, ∃ rings rings',
    BaseApp.formStructure p startingPortNumber order id = .ok rings ∧
      createHgfrTable p nodeList order id = .ok rings' ∧ List.Forall₂ Ring.SameIds rings rings'

theorem tablesAgree_of_buildsAlike {p : Topology} (hused : p.Used) (hfit : p.NumbersFit (p.top + 1))
    (halike : BuildsAlike p) (startingPortNumber : ℕ) {order : MapOrder}
    (hkeys : order.KeyDetermined) {nodeList : NodeList}
    (hlist : ∀ id ∈ p.ids, ∃ address, nodeList.lookup id = some address) :
    TablesAgree p startingPortNumber order nodeList := by
  rintro _ ⟨x, hx, rfl⟩
  obtain ⟨rings, hrings⟩ := BaseApp.exists_formStructure p startingPortNumber order
    (le_trans (by decide) (le_length_text x))
  obtain ⟨rings', hrings', htabled⟩ := createHgfrTable_tabled hfit hx hlist hused halike hkeys
  refine ⟨rings, rings', hrings, hrings', forall₂_iff_getElem?.mpr fun level => ?_⟩
  have htext := BaseApp.rings_text hfit hx hrings level
  by_cases hring : (p.regions order).HasRing level x
  · obtain ⟨ring, hget, hshows⟩ := htext.1 hring
    obtain ⟨ring', hget', hshows'⟩ := htabled.there level hring.1 hring
    rw [hget, hget']
    exact .some (hshows.sameIds hshows' (fun _ => rfl) fun _ => rfl)
  · rw [htext.2 hring, htabled.none level fun h => hring h.2]
    exact .none

/-! ## Where the tables differ -/

section Inversion

variable {builder : TableBuilder} {exchange : Bool} {state state' : TableState}
  {level : List Node → List Node → Except Fault (Ring × List Node)}

theorem exists_of_block (hamong : builder.isAmong state.contactNodes = true)
    (h : block builder exchange level state = .ok state') :
    ∃ ring next, level state.contactNodes state.contactNodesNext = .ok (ring, next) ∧
      state'.tables = state.tables ++ [ring] := by
  rw [block, if_pos hamong] at h
  obtain ⟨⟨ring, next⟩, hlevel, h⟩ := Except.bind_eq_ok.mp h
  refine ⟨ring, next, hlevel, ?_⟩
  cases exchange <;> obtain rfl := Except.ok.inj h <;> rfl

/-- The blocks up to the ring of states. -/
theorem exists_of_createHgfrTable {p : Topology} {nodeList : NodeList} {order : MapOrder}
    {selfId : Str} {rings : List Ring} (h : createHgfrTable p nodeList order selfId = .ok rings) :
    ∃ ring nodes dist city,
      (tableBuilder nodeList order selfId).peerLevel p.numNodesInDist p.numCnodesInDist =
        .ok (ring, nodes) ∧
      block (tableBuilder nodeList order selfId) true
        ((tableBuilder nodeList order selfId).levelAt p 0) ⟨[ring], nodes, []⟩ = .ok dist ∧
      block (tableBuilder nodeList order selfId) false
        ((tableBuilder nodeList order selfId).contactLevel 2 (p.numNodesInState / p.numCnodesInDist)
          p.numCnodesInState idCityStart idCityLen fun id => substrFrom id idDistrictStart)
        dist = .ok city ∧
      city.tables <+: rings ∧ (p.numNodesInCountry ≠ 0 → ∃ state,
        block (tableBuilder nodeList order selfId) true
          ((tableBuilder nodeList order selfId).levelAt p 2) city = .ok state ∧
        state.tables <+: rings) := by
  obtain ⟨⟨ring, nodes⟩, hpeer, h⟩ := Except.bind_eq_ok.mp h
  obtain ⟨dist, hdist, h⟩ := Except.bind_eq_ok.mp h
  obtain ⟨city, hcity, h⟩ := Except.bind_eq_ok.mp h
  refine ⟨ring, nodes, dist, city, hpeer, hdist, hcity, ?_⟩
  split at h
  next hcountry =>
    obtain rfl := Except.ok.inj h
    exact ⟨List.prefix_refl _, fun hne => absurd hcountry hne⟩
  next hcountry =>
    obtain ⟨state, hstate, h⟩ := Except.bind_eq_ok.mp h
    have hrest : state.tables <+: rings := by
      split at h
      next =>
        obtain rfl := Except.ok.inj h
        exact List.prefix_refl _
      next =>
        obtain ⟨country, hcountry, h⟩ := Except.bind_eq_ok.mp h
        obtain ⟨continent, hcontinent, h⟩ := Except.bind_eq_ok.mp h
        obtain rfl := Except.ok.inj h
        exact (prefix_of_block hcountry).trans (prefix_of_block hcontinent)
    exact ⟨(prefix_of_block hstate).trans hrest, fun _ => ⟨state, hstate, hrest⟩⟩

end Inversion

section Necessary

variable {p : Topology} (hused : p.Used) (hfit : p.NumbersFit (p.top + 1)) {startingPortNumber : ℕ}
  {order : MapOrder} (hkeys : order.KeyDetermined) {nodeList : NodeList}
  (hlist : ∀ id ∈ p.ids, ∃ address, nodeList.lookup id = some address)
  (hagree : TablesAgree p startingPortNumber order nodeList)

include hused in
theorem mem_contacts_of_zero {x : Coords} (hfit : p.NumbersFit (p.top + 1)) (hx : p.Member x)
    (htop : 1 ≤ p.top) (hzero : ∀ l ≤ 1, x l = 0) (order : MapOrder) :
    x ∈ (p.regions order).contacts 1 x := by
  have hR : (p.regions order).Proper := hused.proper hfit order
  exact Regions.mem_contacts_one hR.keyed (Topology.member_iff.mpr hx) (fun l _ => hR.counts_pos l)
    (fun l hl => hR.limits_pos l (hl.trans htop)) hzero

/-- The first block, as it is climbed. -/
theorem climbed_of_peerLevel {x : Coords} (hfit : p.NumbersFit (p.top + 1)) (hx : p.Member x)
    (hlist : ∀ id ∈ p.ids, ∃ address, nodeList.lookup id = some address) {ring : Ring}
    {nodes : List Node} (hpeer : (tableBuilder nodeList order (text x)).peerLevel p.numNodesInDist
      p.numCnodesInDist = .ok (ring, nodes)) :
    Climbed p order nodeList x 0 [] ⟨[ring], nodes, []⟩ := by
  obtain ⟨ring', nodes', hpeer', hclimbed⟩ := exists_peerLevel hfit hx hlist
  obtain ⟨rfl, rfl⟩ := Prod.mk.inj (Except.ok.inj (hpeer.symm.trans hpeer'))
  exact hclimbed

include hused hfit hlist hagree

/-- Without cities a node has one ring, and a client has two. -/
theorem city_ne_zero_of_agree : p.numNodesInCity ≠ 0 := by
  intro hcity
  have hzero := hused.member_zero
  obtain ⟨rings, rings', hform, hcreate, hsame⟩ := hagree _ ⟨0, hzero, rfl⟩
  obtain ⟨ring, nodes, dist, city, hpeer, hdist, hcityBlock, hprefix, _⟩ :=
    exists_of_createHgfrTable hcreate
  have hclimbed := climbed_of_peerLevel hfit hzero hlist hpeer
  have hmem : (0 : Coords) ∈ (p.regions order).contacts 0 0 := by
    apply Regions.mem_contacts_zero _ (hused.contacts 0 (Nat.zero_le _)) rfl
    exact (Topology.counts_of_le (Nat.zero_le _)).symm ▸ hused.regions 0 (Nat.zero_le _)
  obtain ⟨_, _, _, htables⟩ := exists_of_block
    (hclimbed.isAmong_of_mem hfit hzero (Regions.hasRing_zero 0) hmem) hdist
  have htop : p.top = 0 := by simp [Topology.top, hcity]
  have hlong := ((prefix_of_block hcityBlock).trans hprefix).length_le
  have hshort := BaseApp.length_formStructure hform
  rw [htables, ← hsame.length_eq] at hlong
  simp only [List.length_append, List.length_singleton] at hlong
  omega

section City

variable (htop : 1 ≤ p.top) {x : Coords} (hx : p.Member x) (hzero : ∀ l ≤ 1, x l = 0)
include htop hkeys hx hzero

/-- The tables of a node that is the first of its city, up to the ring of cities. -/
theorem exists_tables : ∃ rings rings' dist city,
    BaseApp.formStructure p startingPortNumber order (text x) = .ok rings ∧
      List.Forall₂ Ring.SameIds rings rings' ∧ Climbed p order nodeList x 1 [] dist ∧
      dist.tables.length = 2 ∧
      (tableBuilder nodeList order (text x)).isAmong dist.contactNodes = true ∧
      block (tableBuilder nodeList order (text x)) false
        ((tableBuilder nodeList order (text x)).contactLevel 2
          (p.numNodesInState / p.numCnodesInDist) p.numCnodesInState idCityStart idCityLen
          fun id => substrFrom id idDistrictStart) dist = .ok city ∧
      city.tables <+: rings' ∧ (p.numNodesInCountry ≠ 0 → ∃ state,
        block (tableBuilder nodeList order (text x)) true
          ((tableBuilder nodeList order (text x)).levelAt p 2) city = .ok state ∧
        state.tables <+: rings') := by
  obtain ⟨rings, rings', hform, hcreate, hsame⟩ := hagree _ ⟨x, hx, rfl⟩
  obtain ⟨ring, nodes, dist, city, hpeer, hdist, hcity, hprefix, hcountry⟩ :=
    exists_of_createHgfrTable hcreate
  have hR : (p.regions order).Proper := hused.proper hfit order
  obtain ⟨dist', hdist', hclimbed⟩ := (climbed_of_peerLevel hfit hx hlist hpeer).exchange htop hfit
    hx hlist hkeys List.nodup_nil (by simp)
  obtain rfl := Except.ok.inj (hdist.symm.trans hdist')
  have hmem := mem_contacts_of_zero hused hfit hx htop hzero order
  have hring : (p.regions order).HasRing 1 x := by
    refine ⟨htop, ?_⟩
    apply Regions.mem_contacts_zero _ (hR.limits_pos 0 (Nat.zero_le _)) (hzero 0 (by omega))
    exact hR.counts_pos 0
  exact ⟨rings, rings', dist, city, hform, hsame, hclimbed, hclimbed.tabled.length_eq hring,
    hclimbed.isAmong_of_mem hfit hx hring hmem, hcity, hprefix, hcountry⟩

/-- Without states a node has two rings, and a client has three. -/
theorem state_ne_zero_of_agree : p.numNodesInState ≠ 0 := by
  intro hstate
  obtain ⟨rings, rings', dist, city, hform, hsame, _, hlength, hamong, hcity, hprefix, _⟩ :=
    exists_tables hused hfit hkeys hlist hagree htop hx hzero
  obtain ⟨_, _, _, htables⟩ := exists_of_block hamong hcity
  have hle : p.top ≤ 1 := by
    simp only [Topology.top, if_pos hstate]
    split_ifs <;> omega
  have hlong := hprefix.length_le
  have hshort := BaseApp.length_formStructure hform
  rw [htables, List.length_append, hlength, ← hsame.length_eq] at hlong
  simp only [List.length_singleton] at hlong
  omega

/-- The two count the same number of cities in a state. -/
theorem cities_of_agree (htwo : 2 ≤ p.top)
    (hextra : ∀ id ∈ (tableBuilder nodeList order (text x)).levelIds
      (p.numNodesInState / p.numCnodesInDist) idCityStart idCityLen
      (fun id => id.drop idDistrictStart) (((p.regions order).contacts 1 x).map text),
      ∃ address, nodeList.lookup id = some address) :
    p.numNodesInState / p.numCnodesInDist = p.numCitiesInState := by
  have hR : (p.regions order).Proper := hused.proper hfit order
  have hmember : (p.regions order).Member x := Topology.member_iff.mpr hx
  obtain ⟨rings, rings', dist, city, hform, hsame, hclimbed, hlength, hamong, hcity, hprefix, _⟩ :=
    exists_tables hused hfit hkeys hlist hagree htop hx hzero
  have hhas : (p.regions order).HasRing 2 x :=
    ⟨htwo, mem_contacts_of_zero hused hfit hx htop hzero order⟩
  obtain ⟨ring, next, hlevel, htables⟩ := exists_of_block hamong hcity
  rw [(hclimbed.among (hhas.of_le (by omega))).1] at hlevel
  have hids := TableBuilder.contactLevel_peerIds (tableBuilder_names nodeList order (text x))
    (fun id hid => by
      obtain ⟨c, hc, rfl⟩ := List.mem_map.mp hid
      have hc' := Regions.member_of_mem_peers hmember (Regions.mem_peers_of_mem_contacts hc)
      exact (suffixOf_text (Topology.fitsText_of_member hc' hfit) : suffixOf 1 (text c) = _))
    hextra hlevel
  have hget : rings'[2]? = some ring := by
    apply getElem?_of_prefix hprefix
    rw [htables, ← hlength, List.getElem?_concat_length]
  obtain ⟨other, hother, hshows⟩ := (BaseApp.rings_text hfit hx hform 2).1 hhas
  have hrel := forall₂_iff_getElem?.mp hsame 2
  rw [hget, hother] at hrel
  cases hrel with
  | some hrel =>
      have hcount : (p.regions order).counts 2 = p.numCitiesInState := Topology.counts_of_le htwo
      have hwidth : ((p.regions order).contacts 1 x).length = (p.regions order).width 1 :=
        Regions.length_contacts hR.keyed hmember
      have hsizes := congrArg List.length hrel.peerIds
      rw [hids, hshows.peerIds_eq fun _ => rfl, List.length_map, TableBuilder.length_levelIds,
        List.length_map, Regions.peers, Regions.length_spread, Regions.below, hwidth,
        hcount] at hsizes
      exact (Nat.eq_of_mul_eq_mul_right (hR.width_pos htop) hsizes).symm

/-- With countries in use the client builds the ring of states from the contact nodes of
the city, and keeps those of the state among its contact nodes. -/
theorem countries_of_agree (hthree : 3 ≤ p.top) (hcountry : p.numNodesInCountry ≠ 0)
    (hcities : p.numNodesInState / p.numCnodesInDist = p.numCitiesInState) :
    (p.regions order).HasRing 3 x ∧
      (p.regions order).peers 3 x =
        (p.regions order).spread 3 ((p.regions order).contacts 1 x) x ∧
      ∀ c ∈ (p.regions order).kept 2 x, c ∈ (p.regions order).kept 3 x := by
  have hR : (p.regions order).Proper := hused.proper hfit order
  have hmember : (p.regions order).Member x := Topology.member_iff.mpr hx
  have hnames := tableBuilder_names nodeList order (text x)
  obtain ⟨rings, rings', dist, city, hform, hsame, hclimbed, hlength, hamong, hcity, _, hstates⟩ :=
    exists_tables hused hfit hkeys hlist hagree htop hx hzero
  obtain ⟨state, hstate, hprefix⟩ := hstates hcountry
  have hmem := mem_contacts_of_zero hused hfit hx htop hzero order
  rw [hcities] at hcity
  obtain ⟨ring, next, hring, hnext, hblock⟩ := hclimbed.block_of_hasRing (by omega) hfit hx hlist
    ⟨show 2 ≤ p.top by omega, hmem⟩ List.nodup_nil (by simp) false
  obtain rfl := Except.ok.inj (hcity.symm.trans hblock)
  have hstill : (tableBuilder nodeList order (text x)).isAmong
      ((((p.regions order).contacts 1 x).map text).map (listedNode nodeList)) = true :=
    (TableBuilder.isAmong_text rfl hnames hR.keyed hmember 1).mpr hmem
  obtain ⟨states, _, hlevel, htables⟩ := exists_of_block hstill hstate
  -- what the client makes of the contact nodes that it still has
  have hbelow : ∀ c ∈ (p.regions order).contacts 1 x, c ∈ (p.regions order).peers 1 x :=
    fun _ => Regions.mem_peers_of_mem_contacts
  have hagrees : ∀ c ∈ (p.regions order).contacts 1 x, AgreeFrom 3 x c := fun c hc =>
    (Regions.agreeFrom_of_mem_peers (hbelow c hc)).mono (by omega)
  have hmembers : ∀ c ∈ (p.regions order).contacts 1 x, (p.regions order).Member c :=
    fun c hc => Regions.member_of_mem_peers hmember (hbelow c hc)
  have hnodup : ((p.regions order).contacts 1 x).Nodup :=
    (Regions.contacts_perm hR.keyed hmember).nodup_iff.mpr (Regions.nodup_kept hR.keyed hmember)
  obtain ⟨spread, hspread, hshows⟩ := TableBuilder.levelAt_spread rfl hnames
    (fun y hy => hlist _ ⟨y, Topology.member_iff.mp hy, rfl⟩) hR.keyed hmember
    (Topology.fitsText_of_member hmember hfit) (show 2 < p.top by omega) Topology.top_le hmembers
    hagrees (fun c hc => Topology.fitsText_of_member (hmembers c hc) hfit)
    (Regions.nodup_spread hnodup hagrees) next
  obtain ⟨rfl, _⟩ := Prod.mk.inj (Except.ok.inj (hlevel.symm.trans hspread))
  have hget : rings'[3]? = some states := by
    apply getElem?_of_prefix hprefix
    have hthird : (dist.tables ++ [ring]).length = 3 := by simp [hlength]
    rw [htables]
    exact hthird ▸ List.getElem?_concat_length
  obtain ⟨other, hother, hrel⟩ : ∃ other, rings[3]? = some other ∧ other.SameIds states := by
    have hrel := forall₂_iff_getElem?.mp hsame 3
    rw [hget] at hrel
    generalize rings[3]? = found at hrel ⊢
    cases hrel with
    | some hrel => exact ⟨_, rfl, hrel⟩
  obtain ⟨hhas, hother⟩ := BaseApp.ring_of_getElem? hfit hx hform hother
  refine ⟨hhas, ?_, fun c hc => ?_⟩
  · have hids := hrel.peerIds
    rw [hother.peerIds_eq fun _ => rfl, hshows.peerIds_eq fun _ => rfl] at hids
    refine hR.keyed.eq_of_map_key_eq (fun y => Regions.member_of_mem_peers hmember) ?_ hids
    intro y hy
    obtain ⟨i, hi, c, hc, rfl⟩ := Regions.mem_spread.mp hy
    exact Regions.member_move hmember (hmembers c hc) hi
  · have hkept : text c ∈ states.contactNodes.map Prod.fst := by
      rw [hshows.mem_contactKeys, mem_foldl_setInsert]
      exact .inr (hnext.symm.subset (List.mem_map_of_mem hc))
    rw [← hrel.contacts, hother.mem_contactKeys] at hkept
    obtain ⟨d, hd, heq⟩ := List.mem_map.mp hkept
    have hmember' {l : ℕ} {y : Coords} (hy : y ∈ (p.regions order).kept l x) :=
      Regions.member_of_mem_peers hmember (Regions.mem_peers_of_mem_kept hy)
    exact hR.key_inj d c (hmember' hd) (hmember' hc) heq ▸ hd

end City

section Countries

variable (hthree : 3 ≤ p.top) (hcountry : p.numNodesInCountry ≠ 0)
  (hcities : p.numNodesInState / p.numCnodesInDist = p.numCitiesInState)
include hthree hcountry hcities hkeys

/-- The nodes that start the first city of a region, in the ring of states. -/
theorem countries_of_move {level i : ℕ} (hlevel : 2 ≤ level) (htop : level ≤ p.top)
    (hi : i < p.regionCount level) :
    (p.regions order).Member (move level i 0 0) ∧
      (p.regions order).HasRing 3 (move level i 0 0) ∧
      (p.regions order).peers 3 (move level i 0 0) = (p.regions order).spread 3
        ((p.regions order).contacts 1 (move level i 0 0)) (move level i 0 0) ∧
      ∀ c ∈ (p.regions order).kept 2 (move level i 0 0),
        c ∈ (p.regions order).kept 3 (move level i 0 0) := by
  have hzero : (p.regions order).Member 0 := Topology.member_iff.mpr hused.member_zero
  have hmember : (p.regions order).Member (move level i 0 0) :=
    Regions.member_move hzero hzero ((Topology.counts_of_le htop).symm ▸ hi)
  refine ⟨hmember, countries_of_agree hused hfit hkeys hlist hagree (by omega)
    (Topology.member_iff.mp hmember) (fun l hl => ?_) hthree hcountry hcities⟩
  rw [move, if_pos (by omega), Pi.zero_apply]

/-- The ring of cities has as many contact nodes as a ring of districts. -/
theorem width_two_of_agree : (p.regions order).width 2 = (p.regions order).width 1 := by
  have hR : (p.regions order).Proper := hused.proper hfit order
  obtain ⟨hmember, _, hpeers, _⟩ := countries_of_move hused hfit hkeys hlist hagree hthree hcountry
    hcities (show 2 ≤ 3 by omega) hthree (hused.regions 3 hthree)
  have hsizes := congrArg List.length hpeers
  rw [Regions.peers, Regions.length_spread, Regions.length_spread, Regions.below,
    Regions.length_contacts hR.keyed hmember, Regions.length_contacts hR.keyed hmember] at hsizes
  exact Nat.eq_of_mul_eq_mul_left (hR.counts_pos 3) hsizes

theorem single_of_agree : p.numCitiesInState = 1 := by
  have hR : (p.regions order).Proper := hused.proper hfit order
  have hwidth := width_two_of_agree hused hfit hkeys hlist hagree hthree hcountry hcities
  have hpos := hR.width_pos (show 1 ≤ p.top by omega)
  have hcount : (p.regions order).counts 2 = p.numCitiesInState := Topology.counts_of_le (by omega)
  have hcities_pos : 0 < p.numCitiesInState := hused.regions 2 (by omega)
  by_contra hmany
  have hcut : (p.regions order).limits 2 ≤ (p.regions order).width 1 := by
    have hmin : min ((p.regions order).limits 2)
        (p.numCitiesInState * (p.regions order).width 1) = (p.regions order).width 1 := by
      rw [← hcount]
      exact hwidth
    have hlonger := Nat.mul_le_mul_right ((p.regions order).width 1)
      (show 2 ≤ p.numCitiesInState by omega)
    omega
  obtain ⟨hmember, hring, _, _⟩ := countries_of_move hused hfit hkeys hlist hagree hthree hcountry
    hcities le_rfl (by omega) (show 1 < p.numCitiesInState by omega)
  have hzero := Regions.zero_of_mem_kept hR.keyed hmember hcut
    (Regions.mem_kept_of_mem_contacts (hring.mem_contacts (by omega)))
  rw [move_at] at hzero
  exact absurd hzero one_ne_zero

theorem all_of_agree : p.numStatesInCountry * cityContacts p ≤ p.numCnodesInState := by
  have hR : (p.regions order).Proper := hused.proper hfit order
  have hcount : (p.regions order).counts 3 = p.numStatesInCountry := Topology.counts_of_le hthree
  have hstates : 0 < p.numStatesInCountry := hused.regions 3 hthree
  obtain ⟨hmember, _, _, hkept⟩ := countries_of_move hused hfit hkeys hlist hagree hthree hcountry
    hcities (by omega) hthree (show p.numStatesInCountry - 1 < p.numStatesInCountry by omega)
  have hall := Regions.kept_eq_peers_of_last hR.keyed hmember (by rw [move_at, hcount]; omega)
    (Regions.contacts_ne_nil hmember hR (show 2 ≤ p.top by omega))
    fun c hc => hkept c (Regions.mem_kept_of_mem_contacts hc)
  have hsize := List.take_eq_self_iff _ |>.mp hall
  rw [Regions.peers, Regions.length_spread, Regions.below, Regions.length_contacts hR.keyed hmember,
    width_two_of_agree hused hfit hkeys hlist hagree hthree hcountry hcities, hcount,
    width_one p order (by omega)] at hsize
  exact hsize

end Countries

end Necessary

/-- A list of nodes with some ids. -/
def listing (ids : List Str) : NodeList := ids.map fun id => (id, ([], 0))

theorem exists_lookup_listing {ids : List Str} {id : Str} (h : id ∈ ids) :
    ∃ address, (listing ids).lookup id = some address := by
  rw [← Option.isSome_iff_exists, List.lookup_isSome_iff]
  exact ⟨_, List.mem_map_of_mem h, by simp⟩

theorem buildsAlike_of_agree {p : Topology} (hused : p.Used) (hfit : p.NumbersFit (p.top + 1))
    {startingPortNumber : ℕ}
    (h : ∀ order : MapOrder, order.KeyDetermined → ∀ nodeList : NodeList,
      (∀ id ∈ p.ids, ∃ address, nodeList.lookup id = some address) →
        TablesAgree p startingPortNumber order nodeList) : BuildsAlike p := by
  set order := rankedOrder []
  have hkeys : order.KeyDetermined := rankedOrder_keyDetermined []
  have hzero := hused.member_zero
  -- all nodes, and those that the client looks for in cities of its own
  set extra := (tableBuilder [] order (text 0)).levelIds
    (p.numNodesInState / p.numCnodesInDist) idCityStart idCityLen
    (fun id => id.drop idDistrictStart) (((p.regions order).contacts 1 0).map text)
  set nodeList := listing (p.finite_ids.toFinset.toList ++ extra)
  have hlist : ∀ id ∈ p.ids, ∃ address, nodeList.lookup id = some address := fun id hid =>
    exists_lookup_listing (List.mem_append_left _ (by simpa using hid))
  have hagree := h order hkeys nodeList hlist
  have hcity := city_ne_zero_of_agree hused hfit hlist hagree
  have hone := Topology.one_le_top hcity
  have hstate := state_ne_zero_of_agree hused hfit hkeys hlist hagree hone hzero fun _ _ => rfl
  have htwo := Topology.two_le_top hcity hstate
  have hcities := cities_of_agree hused hfit hkeys hlist hagree hone hzero (fun _ _ => rfl) htwo
    fun id hid => exists_lookup_listing (List.mem_append_right _ hid)
  have hthree (hcountry : p.numNodesInCountry ≠ 0) : 3 ≤ p.top :=
    Topology.three_le_top hcity hstate hcountry
  exact ⟨hcity, hstate, hcities,
    fun hne => single_of_agree hused hfit hkeys hlist hagree (hthree hne) hne hcities,
    fun hne => all_of_agree hused hfit hkeys hlist hagree (hthree hne) hne hcities⟩

/-- For a topology whose numbers fit, the two builders agree on all nodes, whatever the
order of maps and the list of nodes, exactly where they build alike. -/
theorem tables_agree_iff (p : Topology) (hused : p.Used) (hfit : p.NumbersFit (p.top + 1))
    (startingPortNumber : ℕ) :
    (∀ order : MapOrder, order.KeyDetermined → ∀ nodeList : NodeList,
      (∀ id ∈ p.ids, ∃ address, nodeList.lookup id = some address) →
        TablesAgree p startingPortNumber order nodeList) ↔ BuildsAlike p := by
  constructor
  · exact buildsAlike_of_agree hused hfit
  · intro halike order hkeys nodeList hlist
    exact tablesAgree_of_buildsAlike hused hfit halike startingPortNumber hkeys hlist

/-- The nodes of two cities of two nodes. -/
def nodesOfTwoCities : List Str :=
  [text 0, text (move 0 1 0 0), text (move 2 1 0 0), text (move 2 1 (move 0 1 0 0) 0)]

theorem mem_nodesOfTwoCities {p : Topology} (htop : p.top = 2) (hdist : p.regionCount 0 = 2)
    (hcity : p.regionCount 1 = 1) (hstate : p.regionCount 2 = 2) {id : Str} (hid : id ∈ p.ids) :
    id ∈ nodesOfTwoCities := by
  obtain ⟨x, ⟨hlow, hhigh⟩, rfl⟩ := hid
  have hnode := hlow 0 (by omega)
  have hdistrict := hlow 1 (by omega)
  have hregion := hlow 2 (by omega)
  rw [hdist] at hnode
  rw [hcity] at hdistrict
  rw [hstate] at hregion
  have hx : x = move 2 (x 2) (move 0 (x 0) 0 0) 0 := by
    funext l
    rcases Nat.lt_or_ge 2 l with hl | hl
    · simp [move, hl.not_gt, hl.ne', hhigh l (htop ▸ hl)]
    · interval_cases l <;> simp [move]
      omega
  rw [hx]
  generalize x 0 = node at hnode ⊢
  generalize x 2 = region at hregion ⊢
  interval_cases node <;> interval_cases region <;> decide

theorem tables_agree_twoCities :
    TablesAgree twoCities 7000 (rankedOrder []) (listing nodesOfTwoCities) := by
  refine (tables_agree_iff twoCities ⟨?_, ?_⟩ ?_ 7000).2 ⟨?_, ?_, ?_, ?_, ?_⟩ _
    (rankedOrder_keyDetermined []) _ fun id hid => ?_
  · decide
  · decide
  · change ∀ l < _, _
    decide
  · decide
  · decide
  · decide
  · exact fun hne => absurd rfl hne
  · exact fun hne => absurd rfl hne
  · exact exists_lookup_listing (mem_nodesOfTwoCities rfl rfl rfl rfl hid)

/-- The same with one contact node to a city. -/
def twoCitiesOneContact : Topology where
  numNodesInDist := 2
  numCnodesInDist := 2
  numNodesInCity := 2
  numCnodesInCity := 1
  numNodesInState := 2
  numCnodesInState := 1
  numNodesInCountry := 0
  numCnodesInCountry := 1
  numNodesInContinent := 0
  numContinents := 1
  numCnodesInContinent := 1

/-- The client counts one city in a state of two. -/
theorem tables_not_agree : ¬∀ p : Topology, p.Used → ∀ (startingPortNumber : ℕ) (order : MapOrder),
    order.KeyDetermined → ∀ nodeList : NodeList,
      (∀ id ∈ p.ids, ∃ address, nodeList.lookup id = some address) →
        TablesAgree p startingPortNumber order nodeList := by
  intro h
  obtain ⟨rings, rings', hform, hcreate, hsame⟩ := h twoCitiesOneContact ⟨by decide, by decide⟩ 7000
    (rankedOrder []) (rankedOrder_keyDetermined []) (listing nodesOfTwoCities)
    (fun id hid => exists_lookup_listing (mem_nodesOfTwoCities rfl rfl rfl rfl hid)) (text 0)
    ⟨0, ⟨by decide, fun _ _ => rfl⟩, rfl⟩
  have hpeers : ((BaseApp.formStructure twoCitiesOneContact 7000 (rankedOrder [])
      (text 0)).toOption.bind fun rings => rings[2]?).map Ring.peerIds =
        some [text 0, text (move 2 1 0 0)] := by
    decide +kernel
  have hpeers' : ((createHgfrTable twoCitiesOneContact (listing nodesOfTwoCities) (rankedOrder [])
      (text 0)).toOption.bind fun rings => rings[2]?).map Ring.peerIds = some [text 0] := by
    decide +kernel
  rw [hform] at hpeers
  rw [hcreate] at hpeers'
  obtain ⟨ring, hget, hids⟩ := Option.map_eq_some_iff.mp hpeers
  obtain ⟨ring', hget', hids'⟩ := Option.map_eq_some_iff.mp hpeers'
  have hrel := forall₂_iff_getElem?.mp hsame 2
  rw [show rings[2]? = some ring from hget, show rings'[2]? = some ring' from hget'] at hrel
  cases hrel with
  | some hrel =>
      have hlength := congrArg List.length (hids.symm.trans (hrel.peerIds.trans hids'))
      exact absurd hlength (by decide)

end EvalClient

end Hgfrr
