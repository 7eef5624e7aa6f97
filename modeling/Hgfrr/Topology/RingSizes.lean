import Hgfrr.Overlay.RegionRings
import Hgfrr.Topology.FormStructure

/-!
# The sizes of the rings

The regions of a level are counted with the contact nodes that a ring of the level
below is configured to have. The rings come out as large as configured if it has
as many of them. Of the ring of states it is the contact count of the level below
that is used in its place.
-/

namespace Hgfrr

open Coords

namespace Topology

variable (p : Topology)

/-- The configured number of peers of a ring. -/
def ringSize : ℕ → ℕ
  | 0 => p.numNodesInDist
  | 1 => p.numNodesInCity
  | 2 => p.numNodesInState
  | 3 => p.numNodesInCountry
  | _ => p.numNodesInContinent

/-- The configured number of contact nodes of a ring. -/
def contactCount : ℕ → ℕ
  | 0 => p.numCnodesInDist
  | 1 => p.numCnodesInCity
  | 2 => p.numCnodesInState
  | 3 => p.numCnodesInCountry
  | _ => p.numCnodesInContinent

/-- The size of a ring above the lowest is a multiple of the contact nodes that there
are in a ring below, and no ring has more contact nodes than nodes. -/
structure Divided : Prop where
  multiple : ∀ level < 4, level + 1 ≤ p.top → p.contactCount level ∣ p.ringSize (level + 1)
  contacts : ∀ level ≤ 4, level ≤ p.top → p.contactCount level ≤ p.ringSize level

/-- Every ring that a node of the network forms has its configured size. -/
def SizesRight : Prop :=
  ∀ (startingPortNumber : ℕ) (order : MapOrder), ∀ id ∈ p.ids, ∀ rings,
    BaseApp.formStructure p startingPortNumber order id = .ok rings →
      ∀ level, 1 ≤ level → level ≤ 4 → ∀ ring : Ring, rings[level]? = some ring →
        ring.peerList.length = p.ringSize level

variable {p} {level : ℕ} {order : MapOrder} {x : Coords}

theorem regionCount_succ (hlevel : level < 4) :
    p.regionCount (level + 1) = p.ringSize (level + 1) / p.contactCount level := by
  interval_cases level <;> rfl

theorem ringSize_pos (hlevel : level + 1 ≤ p.top) : 0 < p.ringSize (level + 1) := by
  have hfive : level < 5 := hlevel.trans top_le
  refine Nat.pos_of_ne_zero fun hzero => ?_
  unfold top at hlevel
  interval_cases level <;> simp only [ringSize] at hzero <;> split_ifs at hlevel <;> omega

namespace Divided

variable (h : p.Divided)
include h

/-- All regions of a level together have as many nodes as the ring above is configured
to have, if each has as many contact nodes as configured. -/
theorem regionCount_mul (hlevel : level < 4) (htop : level + 1 ≤ p.top) :
    p.regionCount (level + 1) * p.contactCount level = p.ringSize (level + 1) := by
  rw [regionCount_succ hlevel]
  exact Nat.div_mul_cancel (h.multiple level hlevel htop)

theorem regionCount_pos (hlevel : level ≤ 4) (htop : level ≤ p.top) : 0 < p.regionCount level := by
  cases level with
  | zero => exact p.dist_pos.trans_le (h.contacts 0 (by decide) (Nat.zero_le _))
  | succ level =>
      refine Nat.pos_of_ne_zero fun hzero => ?_
      have hsize := h.regionCount_mul (by omega) htop
      rw [hzero, Nat.zero_mul] at hsize
      exact (ringSize_pos htop).ne hsize

/-- Up to the ring of cities there are as many contact nodes as configured. -/
theorem width_eq (hlevel : level ≤ 2) (htop : level ≤ p.top) :
    (p.regions order).width level = p.contactCount level := by
  induction level with
  | zero =>
      rw [Regions.width, regions, counts_of_le (Nat.zero_le _)]
      exact min_eq_left (h.contacts 0 (by decide) htop)
  | succ level ih =>
      have htwo : level < 2 := hlevel
      have hlimit : (p.regions order).limits (level + 1) = p.contactCount (level + 1) := by
        interval_cases level <;> rfl
      rw [Regions.width, ih (by omega) (by omega), hlimit, regions, counts_of_le htop,
        h.regionCount_mul (by omega) htop]
      exact min_eq_left (h.contacts (level + 1) (by omega) htop)

/-- The ring of states has as many as the ring of cities. -/
theorem width_state (htop : 3 ≤ p.top) :
    (p.regions order).width 3 = p.numCnodesInState := by
  have hle : p.numCnodesInState ≤ p.ringSize 3 :=
    Nat.le_of_dvd (ringSize_pos htop) (h.multiple 2 (by decide) htop)
  rw [Regions.width, h.width_eq (by decide) (by omega), regions, counts_of_le htop,
    h.regionCount_mul (by decide) htop]
  exact min_eq_left hle

/-- The number of peers of a ring above the lowest. -/
theorem length_peers (hfit : p.NumbersFit p.top) (hx : p.Member x) (hlevel : level < 4)
    (htop : level + 1 ≤ p.top) :
    ((p.regions order).peers (level + 1) x).length =
      if level = 3 then p.regionCount 4 * p.numCnodesInState else p.ringSize (level + 1) := by
  have hwidth : ((p.regions order).contacts level x).length = (p.regions order).width level :=
    Regions.length_contacts (keyed top_le hfit order) (member_iff.mpr hx)
  rw [Regions.peers, Regions.length_spread, Regions.below, hwidth, regions, counts_of_le htop]
  split
  next heq =>
    subst heq
    exact congrArg (p.regionCount 4 * ·) (h.width_state (by omega))
  next hne =>
    rw [← h.regionCount_mul hlevel htop]
    exact congrArg (p.regionCount (level + 1) * ·) (h.width_eq (by omega) (by omega))

/-- In the order of insertion the first node is the first contact node everywhere. -/
theorem head_contacts (hlevel : level < 4) (htop : level ≤ p.top) :
    ((p.regions insertionOrder).contacts level 0).head? = some 0 := by
  refine Regions.head_contacts_zero (fun l hl => ?_) (fun l hl => ?_) fun keys => id
  · rw [regions, counts_of_le (hl.trans htop)]
    exact h.regionCount_pos (by omega) (hl.trans htop)
  · have hfour : l < 4 := by omega
    interval_cases l
    · exact p.dist_pos
    · exact p.city_pos
    · exact p.state_pos
    · exact p.state_pos

end Divided

end Topology

/-- The rings have their configured sizes exactly if a ring of states is given as many
contact nodes as it is configured to have, as far as there is one below a ring of
countries. -/
theorem ring_sizes_right_iff (p : Topology) (h : p.Divided) (hfit : p.NumbersFit (p.top + 1)) :
    p.SizesRight ↔
      p.top < 4 ∨ p.numContinents = 0 ∨ p.numCnodesInCountry = p.numCnodesInState := by
  have hbelow : p.NumbersFit p.top := hfit.mono p.top.le_succ
  constructor
  · intro hright
    by_contra hcase
    obtain ⟨htop, hcontinents, hcounts⟩ := not_or.mp hcase |>.imp_right not_or.mp
    -- the first node has a ring of countries
    have hzero : p.Member 0 := by
      refine ⟨fun l hl => ?_, fun _ _ => rfl⟩
      rcases Nat.lt_or_ge 4 l with hfive | hle
      · obtain rfl : l = 5 := by
          have := Topology.top_le (p := p)
          omega
        exact Nat.pos_of_ne_zero hcontinents
      · exact h.regionCount_pos hle hl
    obtain ⟨rings, hrings⟩ := BaseApp.exists_formStructure p 0 insertionOrder
      (le_trans (by decide) (le_length_text 0))
    have hstates : 3 ≤ p.top := by omega
    have hhas : (p.regions insertionOrder).HasRing 4 0 :=
      ⟨by simpa [Topology.regions, Topology.regionsUpTo] using htop,
        List.mem_of_mem_head? (h.head_contacts (by decide) hstates)⟩
    obtain ⟨ring, hring, hshows⟩ := (BaseApp.rings_text hfit hzero hrings 4).1 hhas
    have hsize := hright 0 insertionOrder (text 0) ⟨0, hzero, rfl⟩ rings hrings 4 (by decide) le_rfl
      ring hring
    rw [hshows.peerList, List.length_map, List.length_map,
      h.length_peers hbelow hzero (by decide) (by omega), if_pos rfl,
      ← h.regionCount_mul (by decide) (by omega)] at hsize
    exact hcounts (Nat.eq_of_mul_eq_mul_left (h.regionCount_pos le_rfl (by omega)) hsize).symm
  · rintro hcase startingPortNumber order _ ⟨x, hx, rfl⟩ rings hrings level hone hfour ring hring
    obtain ⟨level, rfl⟩ := Nat.exists_eq_add_of_le' hone
    obtain ⟨hhas, hshows⟩ := BaseApp.ring_of_getElem? hfit hx hrings hring
    have htop : level + 1 ≤ p.top := hhas.1
    rw [hshows.peerList, List.length_map, List.length_map,
      h.length_peers hbelow hx (by omega) htop]
    split
    next heq =>
      subst heq
      have hcontinents : p.numContinents ≠ 0 := by
        have hfive : 5 ≤ p.top := by
          unfold Topology.top at htop ⊢
          split_ifs at htop ⊢ <;> omega
        exact (Nat.zero_le _).trans_lt (hx.1 5 hfive) |>.ne'
      have hsame := (hcase.resolve_left (by omega)).resolve_left hcontinents
      rw [← h.regionCount_mul (by decide) htop, ← hsame]
      rfl
    next => rfl

theorem ring_sizes_right_fourCities : fourCities.SizesRight := by
  refine (ring_sizes_right_iff fourCities ⟨?_, ?_⟩ ?_).mpr ?_
  · decide
  · decide
  · change ∀ l < _, _
    decide
  · decide

/-- A state of two cities with a node each, both of which are contact nodes of the state,
in a country that is to have one contact node. -/
def oneState : Topology where
  numNodesInDist := 1
  numCnodesInDist := 1
  numNodesInCity := 1
  numCnodesInCity := 1
  numNodesInState := 2
  numCnodesInState := 2
  numNodesInCountry := 2
  numCnodesInCountry := 1
  numNodesInContinent := 1
  numContinents := 1
  numCnodesInContinent := 1

/-- The ring of countries has two nodes and not one. -/
theorem ring_sizes_not_right : ¬∀ p : Topology, p.Divided → p.SizesRight := by
  intro h
  have hright := h oneState ⟨by decide, by decide⟩ 7000 insertionOrder (text 0)
    ⟨0, ⟨by decide, fun _ _ => rfl⟩, rfl⟩
  have htwo : ((BaseApp.formStructure oneState 7000 insertionOrder (text 0)).toOption.bind
      fun rings => rings[4]?).map (fun ring => ring.peerList.length) = some 2 := by
    decide +kernel
  cases hrings : BaseApp.formStructure oneState 7000 insertionOrder (text 0) with
  | error fault =>
      rw [hrings] at htwo
      exact nomatch htwo
  | ok rings =>
      rw [hrings] at htwo
      obtain ⟨ring, hring, hlength⟩ := Option.map_eq_some_iff.mp htwo
      have hone := hright rings hrings 4 (by decide) le_rfl ring hring
      exact absurd (hlength.symm.trans hone) (by decide)

end Hgfrr
