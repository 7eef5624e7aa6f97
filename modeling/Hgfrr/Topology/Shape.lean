import Hgfrr.Model.App
import Hgfrr.Topology.Texts

/-!
# The regions of a topology

The parameters of a topology say how many regions each level has, and how many
contact nodes its rings have at most. A level without nodes, and all those above
it, are not in use.
-/

namespace Hgfrr

open Coords

namespace Topology

variable (p : Topology)

/-- The highest level in use. The two highest levels come together. -/
def top : ℕ :=
  if p.numNodesInCity = 0 then 0
  else if p.numNodesInState = 0 then 1
  else if p.numNodesInCountry = 0 then 2
  else if p.numNodesInContinent = 0 then 3
  else 5

/-- The regions of a level in one region of the level above, nodes at level zero. -/
def regionCount : ℕ → ℕ
  | 0 => p.numNodesInDist
  | 1 => p.numDistsInCity
  | 2 => p.numCitiesInState
  | 3 => p.numStatesInCountry
  | 4 => p.numCountriesInContinent
  | _ => p.numContinents

/-- The bound on the contact nodes of a ring. Levels two and three share one. -/
def contactLimit : ℕ → ℕ
  | 0 => p.numCnodesInDist
  | 1 => p.numCnodesInCity
  | 2 => p.numCnodesInState
  | 3 => p.numCnodesInState
  | 4 => p.numCnodesInCountry
  | _ => p.numCnodesInContinent

/-- Every level in use has a region, and every ring a contact node. -/
structure Used : Prop where
  regions : ∀ level ≤ p.top, 0 < p.regionCount level
  contacts : ∀ level ≤ p.top, 0 < p.contactLimit level

/-- The numbers of the regions fit their segments, below a level. -/
def NumbersFit (level : ℕ) : Prop := ∀ l < level, p.regionCount l ≤ 10 ^ idLen l

/-- The regions of a topology, up to a level. -/
def regionsUpTo (level : ℕ) (order : MapOrder) : Regions Str where
  top := level
  counts l := if l ≤ level then p.regionCount l else 1
  limits := p.contactLimit
  key := text
  order := order.order

/-- The regions of a topology. -/
def regions (order : MapOrder) : Regions Str := p.regionsUpTo p.top order

/-- The coordinates of the nodes of the network. -/
def Member (x : Coords) : Prop :=
  (∀ l ≤ p.top, x l < p.regionCount l) ∧ ∀ l, p.top < l → x l = 0

/-- The ids of the network. -/
def ids : Set Str := {id | ∃ x, p.Member x ∧ text x = id}

variable {p}

theorem top_le : p.top ≤ 5 := by
  unfold top
  split_ifs <;> omega

theorem member_iff {order : MapOrder} {x : Coords} : (p.regions order).Member x ↔ p.Member x := by
  constructor
  · intro h
    refine ⟨fun l hl => ?_, fun l hl => ?_⟩
    · simpa [regions, regionsUpTo, hl] using h l
    · simpa [regions, regionsUpTo, not_le.mpr hl] using h l
  · rintro ⟨hlow, hhigh⟩ l
    by_cases hl : l ≤ p.top
    · simpa [regions, regionsUpTo, hl] using hlow l hl
    · simpa [regions, regionsUpTo, hl] using hhigh l (not_le.mp hl)

/-- The network is finite. -/
theorem finite_ids (p : Topology) : p.ids.Finite := by
  have hmembers : {x | p.Member x}.Finite := by
    refine (Set.finite_range fun (numbers : (l : Fin (p.top + 1)) → Fin (p.regionCount l)) l =>
      if hl : l < p.top + 1 then (numbers ⟨l, hl⟩).val else 0).subset ?_
    rintro x ⟨hlow, hhigh⟩
    refine ⟨fun l => ⟨x l, hlow l (by omega)⟩, ?_⟩
    funext l
    by_cases hl : l < p.top + 1
    · exact dif_pos hl
    · exact (dif_neg hl).trans (hhigh l (by omega)).symm
  exact hmembers.image text

section Proper

variable {level : ℕ} {order : MapOrder} {x y : Coords}

theorem counts_of_le {l : ℕ} (hl : l ≤ level) :
    (p.regionsUpTo level order).counts l = p.regionCount l := if_pos hl

theorem zero_of_lt (hx : (p.regionsUpTo level order).Member x) {l : ℕ} (hl : level < l) :
    x l = 0 := by
  simpa [regionsUpTo, not_le.mpr hl] using hx l

/-- The numbers of a member fit where those of all regions do. -/
theorem fits_of_member (hx : (p.regionsUpTo level order).Member x) {l : ℕ}
    (hfit : p.NumbersFit level) (hl : l ≠ level) : x l < 10 ^ idLen l := by
  rcases Nat.lt_or_ge level l with hlt | hge
  · rw [zero_of_lt hx hlt]
    positivity
  · have hlt := hx l
    rw [counts_of_le hge] at hlt
    exact hlt.trans_le (hfit l (by omega))

theorem fitsText_of_member (hx : (p.regionsUpTo level order).Member x)
    (hfit : p.NumbersFit (level + 1)) : FitsText x := by
  intro l _
  by_cases hl : l = level
  · have hlt := hx l
    rw [counts_of_le hl.le] at hlt
    exact hlt.trans_le (hfit l (by omega))
  · exact fits_of_member hx (fun k hk => hfit k (by omega)) hl

/-- Ids tell nodes apart as long as no more than the highest numbers are too long. -/
theorem text_inj (hx : (p.regionsUpTo level order).Member x)
    (hy : (p.regionsUpTo level order).Member y) (hlevel : level ≤ 5)
    (hfit : p.NumbersFit level) (h : text x = text y) : x = y := by
  have hagree : AgreeFrom (level + 1) x y := by
    intro l hl
    rw [zero_of_lt hx hl, zero_of_lt hy hl]
  rw [text_split (Nat.lt_succ_of_le hlevel), text_split (Nat.lt_succ_of_le hlevel),
    upText_congr hagree, List.append_cancel_left_eq] at h
  have hlow := lowText_inj (Nat.lt_succ_of_le hlevel) (fun k hk => fits_of_member hx hfit hk.ne)
    (fun k hk => fits_of_member hy hfit hk.ne) h
  funext l
  rcases Nat.lt_or_ge level l with hlt | hge
  · exact hagree l hlt
  · exact hlow l hge

/-- Ids tell the nodes apart, as far as numbers fit. -/
theorem keyed (hlevel : level ≤ 5) (hfit : p.NumbersFit level) (order : MapOrder) :
    (p.regionsUpTo level order).Keyed where
  order_perm := order.perm
  key_inj := fun _ _ hx hy => text_inj hx hy hlevel hfit

/-- The regions in use, as far as numbers fit. -/
theorem proper (hused : p.Used) (htop : level ≤ p.top) (hfit : p.NumbersFit level)
    (order : MapOrder) : (p.regionsUpTo level order).Proper where
  counts_pos := by
    intro l
    by_cases hl : l ≤ level
    · rw [counts_of_le hl]
      exact hused.regions l (hl.trans htop)
    · simp [regionsUpTo, hl]
  counts_above := by
    intro l hl
    exact if_neg (not_le.mpr hl)
  limits_pos := fun l hl => hused.contacts l (hl.trans htop)
  order_perm := order.perm
  key_inj := fun x y hx hy => text_inj hx hy (htop.trans top_le) hfit

theorem NumbersFit.mono {higher : ℕ} (hfit : p.NumbersFit higher) (hle : level ≤ higher) :
    p.NumbersFit level := fun l hl => hfit l (hl.trans_le hle)

theorem NumbersFit.keyed (hfit : p.NumbersFit (p.top + 1)) (order : MapOrder) :
    (p.regions order).Keyed := Topology.keyed top_le (hfit.mono p.top.le_succ) order

theorem Used.proper (hused : p.Used) (hfit : p.NumbersFit (p.top + 1)) (order : MapOrder) :
    (p.regions order).Proper := Topology.proper hused le_rfl (hfit.mono p.top.le_succ) order

/-- The first node of the network. -/
theorem Used.member_zero (hused : p.Used) : p.Member 0 :=
  ⟨fun l hl => hused.regions l hl, fun _ _ => rfl⟩

end Proper

section Top

variable (hcity : p.numNodesInCity ≠ 0)
include hcity

theorem one_le_top : 1 ≤ p.top := by
  simp only [top, if_neg hcity]
  split_ifs <;> omega

theorem two_le_top (hstate : p.numNodesInState ≠ 0) : 2 ≤ p.top := by
  simp only [top, if_neg hcity, if_neg hstate]
  split_ifs <;> omega

theorem three_le_top (hstate : p.numNodesInState ≠ 0) (hcountry : p.numNodesInCountry ≠ 0) :
    3 ≤ p.top := by
  simp only [top, if_neg hcity, if_neg hstate, if_neg hcountry]
  split_ifs <;> omega

end Top

end Topology

end Hgfrr
