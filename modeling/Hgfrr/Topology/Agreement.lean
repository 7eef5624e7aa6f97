import Hgfrr.Overlay.Disagreement
import Hgfrr.Topology.FormStructure

/-!
# Members of a ring

Every node forms its tables alone. The members of a ring agree on it if the numbers of
all regions fit, and if no map with two contact nodes lies below a level with several
regions. Where a number does not fit, a peer cannot form the ring it is in. Where
such a map does lie below such a level, an order of maps sets two members apart.
-/

namespace Hgfrr

open Coords

/-- Maps that give some keys first. -/
def rankedOrder (ranked : List Str) : MapOrder :=
  ⟨Arrange.byRank ranked, Arrange.byRank_perm ranked⟩

theorem rankedOrder_keyDetermined (ranked : List Str) : (rankedOrder ranked).KeyDetermined :=
  fun _ _ => Arrange.byRank_congr ranked

/-- Above a level where a map holds two contact nodes or more, no level in use has two
regions or more. -/
def Topology.OrderFree (p : Topology) : Prop := (p.regions insertionOrder).OrderFree

theorem Topology.orderFree_iff {p : Topology} (order : MapOrder) :
    p.OrderFree ↔ (p.regions order).OrderFree := by
  have hwidth (l : ℕ) : (p.regions order).width l = (p.regions insertionOrder).width l :=
    Regions.width_withOrder (p.regions insertionOrder) order.order l
  simp only [OrderFree, Regions.OrderFree, hwidth]
  rfl

namespace BaseApp

variable {p : Topology} {startingPortNumber : ℕ} {order : MapOrder}

/-- Whoever is a peer in a ring of another node has that ring, with the same peers in
the same order, and with the same contact nodes. -/
def RingsAgree (p : Topology) (startingPortNumber : ℕ) (order : MapOrder) : Prop :=
  ∀ id ∈ p.ids, ∀ id' ∈ p.ids, ∀ rings rings',
    formStructure p startingPortNumber order id = .ok rings →
    formStructure p startingPortNumber order id' = .ok rings' →
    ∀ (level : ℕ) (ring : Ring), rings[level]? = some ring → id' ∈ ring.peerIds →
      ∃ ring' : Ring, rings'[level]? = some ring' ∧ ring'.peerIds = ring.peerIds ∧
        ∀ contact, contact ∈ ring'.contactNodes.map Prod.fst ↔
          contact ∈ ring.contactNodes.map Prod.fst

theorem ringsAgree_of_orderFree (hused : p.Used) (hfit : p.NumbersFit (p.top + 1))
    (hfree : p.OrderFree) (startingPortNumber : ℕ) (order : MapOrder) :
    RingsAgree p startingPortNumber order := by
  rintro _ ⟨x, hx, rfl⟩ _ ⟨y, hy, rfl⟩ rings rings' h h' level ring hget hmem
  obtain ⟨hhas, hshows⟩ := ring_of_getElem? hfit hx h hget
  have hR : (p.regions order).Proper := hused.proper hfit order
  have hx' : (p.regions order).Member x := Topology.member_iff.mpr hx
  have hy' : (p.regions order).Member y := Topology.member_iff.mpr hy
  have hpeer : y ∈ (p.regions order).peers level x := by
    rw [hshows.peerIds_eq fun _ => rfl] at hmem
    obtain ⟨c, hc, heq⟩ := List.mem_map.mp hmem
    exact hR.key_inj c y (Regions.member_of_mem_peers hx' hc) hy' heq ▸ hc
  have halike := Regions.OrderFree.alike hR ((Topology.orderFree_iff order).mp hfree)
  have hagree := Regions.agreeFrom_of_mem_peers hpeer
  have hat := halike level hhas.1 x y hx' hy' hagree
  obtain ⟨ring', hget', hshows'⟩ :=
    (rings_text hfit hy h' level).1 (halike.of_mem_peers hhas.1 hx' hpeer).1
  refine ⟨ring', hget', ?_, fun contact => ?_⟩
  · rw [hshows'.peerIds_eq fun _ => rfl, hshows.peerIds_eq fun _ => rfl, hat.peers_eq hagree]
  · rw [hshows'.mem_contactKeys, hshows.mem_contactKeys, hat.kept_eq hagree]

/-! ## Numbers that do not fit -/

/-- A node with an id of unusual length does not find itself in its lowest ring. -/
theorem formStructure_long (hdist : p.numNodesInDist ≤ 10 ^ idSingleLen) {selfId : Str}
    (hlong : 32 < selfId.length) {rings : List Ring}
    (h : formStructure p startingPortNumber order selfId = .ok rings) : rings.length = 1 := by
  have hself : idSingleStart ≤ selfId.length := le_trans (by decide) hlong.le
  have hlength : ∀ id ∈ (builder p startingPortNumber order selfId).peerIds p.numNodesInDist,
      id.length = 32 := by
    intro id hid
    obtain ⟨i, hi, rfl⟩ := List.mem_map.mp hid
    have hnumber : (setw idSingleLen i).length = idSingleLen :=
      length_setw (by decide) ((List.mem_range.mp hi).trans_le hdist)
    rw [List.length_append, hnumber]
    change (selfId.take idSingleStart).length + idSingleLen = 32
    rw [List.length_take, min_eq_left hself]
    rfl
  obtain ⟨ring, hring, _⟩ := TableBuilder.peerLevel_eq
    (builder_names p startingPortNumber order selfId) p.numNodesInDist p.numCnodesInDist hself
    fun id hid => le_trans (by decide) (hlength id hid).ge
  obtain ⟨⟨ring', list⟩, hring', h⟩ := Except.bind_eq_ok.mp h
  obtain ⟨rfl, rfl⟩ := Prod.mk.inj (Except.ok.inj (hring.symm.trans hring'))
  obtain ⟨above, habove, h⟩ := Except.bind_eq_ok.mp h
  obtain rfl := Except.ok.inj h
  rw [climb_of_not_isAmong] at habove
  · obtain rfl := Except.ok.inj habove
    rfl
  · rw [TableBuilder.isAmong, map_id_map_node fun _ => rfl]
    refine decide_eq_false fun hmem => ?_
    exact hlong.ne' (hlength _ (List.mem_of_mem_take hmem))

/-- Where a number does not fit, the first node has a peer that lacks its ring. -/
theorem numbersFit_of_ringsAgree (hused : p.Used) (hdist : p.numNodesInDist ≤ 10 ^ idSingleLen)
    (h : RingsAgree p startingPortNumber (rankedOrder [text 0])) : p.NumbersFit (p.top + 1) := by
  by_contra hlarge
  have hexists : ∃ l, l < p.top + 1 ∧ 10 ^ idLen l < p.regionCount l := by
    simpa [Topology.NumbersFit] using hlarge
  -- the lowest level with a number that does not fit
  obtain ⟨htop, hmany⟩ := Nat.find_spec hexists
  have hlowest : ∀ l < Nat.find hexists, p.regionCount l ≤ 10 ^ idLen l := by
    intro l hl
    by_contra hl'
    exact Nat.find_min hexists hl ⟨by omega, by omega⟩
  generalize Nat.find hexists = level at htop hmany hlowest
  set order := rankedOrder [text 0]
  have hlevel : level ≤ p.top := Nat.le_of_lt_succ htop
  have hR : (p.regionsUpTo level order).Proper := Topology.proper hused hlevel hlowest order
  have hzero : p.Member 0 := hused.member_zero
  set far : Coords := move level (10 ^ idLen level) 0 0
  have hfar : p.Member far := by
    have hzero' : (p.regions order).Member 0 := Topology.member_iff.mpr hzero
    have hcount : (p.regions order).counts level = p.regionCount level :=
      Topology.counts_of_le hlevel
    exact Topology.member_iff.mp (Regions.member_move hzero' hzero' (hcount ▸ hmany))
  have hhas : (p.regionsUpTo level order).HasRing level 0 := by
    refine ⟨le_rfl, ?_⟩
    cases level with
    | zero => exact (Regions.hasRing_zero 0).2
    | succ l =>
        refine List.mem_of_mem_head? (Option.mem_def.mpr (Regions.head_contacts_zero
          (fun k _ => hR.counts_pos k) (fun k hk => hR.limits_pos k (hk.trans l.le_succ)) ?_))
        exact fun keys hkeys => Arrange.head_byRank [] (List.mem_of_mem_head? hkeys)
  have hlong : 32 < (text far).length := by
    refine lt_of_le_of_ne (le_length_text far) fun heq => ?_
    have hsix : level < 6 := Nat.lt_succ_of_le (hlevel.trans Topology.top_le)
    have hlt := fitsText_iff_length.mpr heq.symm level hsix
    have hat : far level = 10 ^ idLen level := move_at
    exact hlt.ne hat
  obtain ⟨rings, hrings⟩ := exists_formStructure p startingPortNumber order
    (le_trans (by decide) (le_length_text 0))
  obtain ⟨rings', hrings'⟩ := exists_formStructure p startingPortNumber order
    (le_trans (by decide) (le_length_text far))
  have htext : FitsText 0 := fun l _ => by
    rw [Pi.zero_apply]
    positivity
  obtain ⟨ring, hget, hshows⟩ := (formStructure_text hR.keyed (hlevel.trans Topology.top_le) hlowest
    hR.member_zero htext hlevel hrings level le_rfl).1 hhas
  obtain ⟨ring', hget', _⟩ := h _ ⟨_, hzero, rfl⟩ _ ⟨_, hfar, rfl⟩ rings rings' hrings hrings' level
    ring hget (by
      rw [hshows.peerIds_eq fun _ => rfl]
      refine List.mem_map_of_mem (Regions.mem_spread.mpr ?_)
      exact ⟨10 ^ idLen level, by rwa [Topology.counts_of_le le_rfl], 0, hhas.2, rfl⟩)
  have hlength := formStructure_long hdist hlong hrings'
  have hlt := (List.getElem?_eq_some_iff.mp hget').1
  obtain rfl : level = 0 := by omega
  exact hmany.not_ge hdist

/-! ## Maps that set members apart -/

theorem orderFree_of_ringsAgree (hused : p.Used) (hfit : p.NumbersFit (p.top + 1))
    (h : ∀ order : MapOrder, order.KeyDetermined → RingsAgree p startingPortNumber order) :
    p.OrderFree := by
  have hR : (p.regions insertionOrder).Proper := hused.proper hfit insertionOrder
  by_contra hnot
  obtain ⟨low, level, hcrossing⟩ := Regions.exists_crossing hR hnot
  set order := rankedOrder (Regions.Crossing.ranked (p.regions insertionOrder) low level)
  have hzero : p.Member 0 := Topology.member_iff.mp hR.member_zero
  have hfar : p.Member (Regions.Crossing.farNode level) :=
    Topology.member_iff.mp (hcrossing.member_farNode hR)
  obtain ⟨hhas, hmem, hdiffer⟩ : (p.regions order).HasRing level 0 ∧
      Regions.Crossing.farNode level ∈ (p.regions order).peers level 0 ∧
        ¬((p.regions order).HasRing level (Regions.Crossing.farNode level) ∧
          (p.regions order).peers level (Regions.Crossing.farNode level) =
            (p.regions order).peers level 0) := hcrossing.disagree hR
  obtain ⟨rings, hrings⟩ := exists_formStructure p startingPortNumber order
    (le_trans (by decide) (le_length_text 0))
  obtain ⟨rings', hrings'⟩ := exists_formStructure p startingPortNumber order
    (le_trans (by decide) (le_length_text (Regions.Crossing.farNode level)))
  obtain ⟨ring, hget, hshows⟩ := (rings_text hfit hzero hrings level).1 hhas
  obtain ⟨ring', hget', hpeers, _⟩ := h order (rankedOrder_keyDetermined _) _ ⟨_, hzero, rfl⟩ _
    ⟨_, hfar, rfl⟩ rings rings' hrings hrings' level ring hget (by
      rw [hshows.peerIds_eq fun _ => rfl]
      exact List.mem_map_of_mem hmem)
  obtain ⟨hhas', hshows'⟩ := ring_of_getElem? hfit hfar hrings' hget'
  apply hdiffer
  refine ⟨hhas', ?_⟩
  rw [hshows'.peerIds_eq fun _ => rfl, hshows.peerIds_eq fun _ => rfl] at hpeers
  have hkeyed : (p.regions order).Keyed := hfit.keyed order
  refine hkeyed.eq_of_map_key_eq ?_ ?_ hpeers
  · exact fun y hy => Regions.member_of_mem_peers (Topology.member_iff.mpr hfar) hy
  · exact fun y hy => Regions.member_of_mem_peers (Topology.member_iff.mpr hzero) hy

end BaseApp

/-- The members of all rings agree on them, whatever the order of maps, if all numbers fit
and no order matters. As long as the numbers of a district's nodes fit, there is no
other case. -/
theorem rings_agree_iff (p : Topology) (hused : p.Used) (startingPortNumber : ℕ) :
    (p.NumbersFit (p.top + 1) ∧ p.OrderFree →
      ∀ order : MapOrder, BaseApp.RingsAgree p startingPortNumber order) ∧
    (p.numNodesInDist ≤ 10 ^ idSingleLen →
      (∀ order : MapOrder, order.KeyDetermined → BaseApp.RingsAgree p startingPortNumber order) →
        p.NumbersFit (p.top + 1) ∧ p.OrderFree) := by
  constructor
  · rintro ⟨hfit, hfree⟩ order
    exact BaseApp.ringsAgree_of_orderFree hused hfit hfree startingPortNumber order
  · intro hdist h
    have hfit := BaseApp.numbersFit_of_ringsAgree hused hdist
      (h _ (rankedOrder_keyDetermined [text 0]))
    exact ⟨hfit, BaseApp.orderFree_of_ringsAgree hused hfit h⟩

theorem orderFree_fourCities : fourCities.OrderFree := by
  intro level _ _ l hpos _
  obtain ⟨l, rfl⟩ := Nat.exists_eq_add_of_le' hpos
  apply (min_le_left _ _).trans
  change fourCities.contactLimit (l + 1) ≤ 1
  unfold Topology.contactLimit
  split <;> exact le_rfl

theorem rings_agree_fourCities : BaseApp.RingsAgree fourCities 7000 insertionOrder := by
  refine (rings_agree_iff fourCities ⟨?_, ?_⟩ 7000).1 ⟨?_, orderFree_fourCities⟩ insertionOrder
  · decide
  · decide
  · change ∀ l < _, _
    decide

/-- Two cities of two nodes each, all of which are contact nodes of their city. -/
def twoCities : Topology where
  numNodesInDist := 2
  numCnodesInDist := 2
  numNodesInCity := 2
  numCnodesInCity := 2
  numNodesInState := 4
  numCnodesInState := 1
  numNodesInCountry := 0
  numCnodesInCountry := 1
  numNodesInContinent := 0
  numContinents := 1
  numCnodesInContinent := 1

/-- The first nodes of the two cities order the ring of the state differently, if the
map of the first city gives its first node first, and that of the second its second. -/
theorem rings_not_agree : ¬∀ p : Topology, p.Used → ∀ (startingPortNumber : ℕ) (order : MapOrder),
    order.KeyDetermined → BaseApp.RingsAgree p startingPortNumber order := by
  intro h
  set first : Str := text 0
  set second : Str := text (move 2 1 0 0)
  set order := rankedOrder [first, text (move 2 1 (move 0 1 0 0) 0)]
  have hsecond : second ∈ twoCities.ids := by
    refine ⟨_, ⟨by decide, fun l hl => ?_⟩, rfl⟩
    have htwo : 2 < l := hl
    simp [move, htwo.not_gt, htwo.ne']
  obtain ⟨rings, hrings⟩ := BaseApp.exists_formStructure twoCities 7000 order
    (show idSingleStart ≤ first.length by decide)
  obtain ⟨rings', hrings'⟩ := BaseApp.exists_formStructure twoCities 7000 order
    (show idSingleStart ≤ second.length by decide)
  have hpeers : ((BaseApp.formStructure twoCities 7000 order first).toOption.bind fun rings =>
      rings[2]?).map Ring.peerIds = some [first, text (move 0 1 0 0), second,
        text (move 2 1 (move 0 1 0 0) 0)] := by
    decide +kernel
  have hpeers' : ((BaseApp.formStructure twoCities 7000 order second).toOption.bind fun rings =>
      rings[2]?).map Ring.peerIds = some [text (move 0 1 0 0), first,
        text (move 2 1 (move 0 1 0 0) 0), second] := by
    decide +kernel
  rw [hrings] at hpeers
  rw [hrings'] at hpeers'
  obtain ⟨ring, hget, hids⟩ := Option.map_eq_some_iff.mp hpeers
  obtain ⟨ring', hget', hids'⟩ := Option.map_eq_some_iff.mp hpeers'
  obtain ⟨other, hother, hsame, _⟩ := h twoCities ⟨by decide, by decide⟩ 7000 order
    (rankedOrder_keyDetermined _) first ⟨0, ⟨by decide, fun _ _ => rfl⟩, rfl⟩ second hsecond
    rings rings' hrings hrings' 2 ring hget (by simp [hids])
  obtain rfl := Option.some.inj (hget'.symm.trans hother)
  rw [hids, hids'] at hsame
  exact absurd hsame (by decide +kernel)

end Hgfrr
