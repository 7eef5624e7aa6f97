import Hgfrr.Foundation.MixedRadix
import Hgfrr.Model.Utils

/-!
# Node numbers and node ids

The id of a node is its number in mixed radix, one segment for each level. The
way back gives every digit a weight, and counts the cities of a state and the
levels without regions in a way of its own.
-/

namespace Hgfrr

open MixedRadix

namespace Topology

variable (p : Topology)

/-- The sizes of the levels, lowest first: nodes in a district, districts in a
city, and so on up to continents. -/
def radices : List ℕ :=
  [p.numNodesInDist, atLeastOne p.numDistsInCity, atLeastOne p.numCitiesInState,
    atLeastOne p.numStatesInCountry, atLeastOne p.numCountriesInContinent,
    atLeastOne p.numContinents]

/-- The number of nodes of the network. -/
def numNodes : ℕ := p.radices.prod

/-- The cities in a state as `convert_ID_string_to_int` counts them. -/
def numCitiesRead : ℕ := p.numNodesInState / p.numCnodesInDist

/-- The weights that `convert_ID_string_to_int` gives to the segments, lowest
first. -/
def weights : List ℕ :=
  let dist := p.numNodesInDist
  let city := dist * p.numDistsInCity
  let state := city * p.numCitiesRead
  let country := state * p.numStatesInCountry
  [1, dist, city, state, country, country * p.numCountriesInContinent]

/-- Districts have nodes, every index fits its segment, and no product leaves the
range of `int`. -/
structure Fits : Prop where
  nonempty : 1 ≤ p.numNodesInDist
  single : p.numNodesInDist ≤ 10 ^ idSingleLen
  district : atLeastOne p.numDistsInCity ≤ 10 ^ idDistrictLen
  city : atLeastOne p.numCitiesInState ≤ 10 ^ idCityLen
  state : atLeastOne p.numStatesInCountry ≤ 10 ^ idStateLen
  country : atLeastOne p.numCountriesInContinent ≤ 10 ^ idCountryLen
  continent : atLeastOne p.numContinents ≤ 10 ^ idContinentLen
  numNodes : p.numNodes < 2 ^ 31
  products : ∀ place ∈ p.weights.zip p.radices,
    place.1 < 2 ^ 31 ∧ place.1 * (place.2 - 1) < 2 ^ 31

/-- Both conversions divide alike: below a level with two regions or more no
quotient is zero, and below one with two states or more the cities in a state
are as many for one contact count as for the other. -/
def DividesAlike : Prop :=
  (2 ≤ atLeastOne p.numCitiesInState → 1 ≤ p.numDistsInCity) ∧
  (2 ≤ atLeastOne p.numStatesInCountry →
    1 ≤ p.numDistsInCity ∧ p.numCitiesRead = atLeastOne p.numCitiesInState) ∧
  (2 ≤ atLeastOne p.numCountriesInContinent →
    1 ≤ p.numDistsInCity ∧ p.numCitiesRead = atLeastOne p.numCitiesInState ∧
      1 ≤ p.numStatesInCountry) ∧
  (2 ≤ atLeastOne p.numContinents →
    1 ≤ p.numDistsInCity ∧ p.numCitiesRead = atLeastOne p.numCitiesInState ∧
      1 ≤ p.numStatesInCountry ∧ 1 ≤ p.numCountriesInContinent)

instance : Decidable p.DividesAlike := inferInstanceAs (Decidable (_ ∧ _ ∧ _ ∧ _))

end Topology

theorem atLeastOne_pos (count : ℕ) : 0 < atLeastOne count := by
  unfold atLeastOne
  split <;> omega

/-- Zero is the only count that is not counted as it is. -/
theorem atLeastOne_eq_iff {count : ℕ} : count = atLeastOne count ↔ 1 ≤ count := by
  unfold atLeastOne
  split <;> omega

namespace Topology

variable {p : Topology}

theorem radices_pos (hnonempty : 1 ≤ p.numNodesInDist) : ∀ radix ∈ p.radices, 0 < radix := by
  simp only [radices, List.forall_mem_cons]
  exact ⟨hnonempty, atLeastOne_pos _, atLeastOne_pos _, atLeastOne_pos _, atLeastOne_pos _,
    atLeastOne_pos _, by simp⟩

/-- A weight times a count is the right weight times the count taken as at least
one only if the weight was right before and the count is not zero. -/
theorem mul_count_eq_iff {weight unit count : ℕ} (hunit : 0 < unit) :
    weight * count = unit * atLeastOne count ↔ weight = unit ∧ 1 ≤ count := by
  unfold atLeastOne
  split
  next hzero => simp [hzero, hunit.ne]
  next hcount =>
    rw [Nat.mul_right_cancel_iff (Nat.pos_of_ne_zero hcount)]
    omega

theorem suits_iff (hnonempty : 1 ≤ p.numNodesInDist) :
    Suits 1 p.radices p.weights ↔ p.DividesAlike := by
  have hdist := atLeastOne_pos p.numDistsInCity
  have hcity := atLeastOne_pos p.numCitiesInState
  have hstate := atLeastOne_pos p.numStatesInCountry
  have hcities : p.numNodesInDist * p.numDistsInCity * p.numCitiesRead =
      p.numNodesInDist * atLeastOne p.numDistsInCity * atLeastOne p.numCitiesInState ↔
        1 ≤ p.numDistsInCity ∧ p.numCitiesRead = atLeastOne p.numCitiesInState := by
    rw [mul_assoc, mul_assoc, Nat.mul_left_cancel_iff hnonempty]
    rcases Nat.eq_zero_or_pos p.numDistsInCity with hzero | hpos
    · have hone : atLeastOne 0 = 1 := rfl
      simp [hzero, hone, hcity.ne]
    · rw [← atLeastOne_eq_iff.mpr hpos, Nat.mul_left_cancel_iff hpos]
      exact (and_iff_right hpos).symm
  have hstates : 0 < p.numNodesInDist * atLeastOne p.numDistsInCity *
      atLeastOne p.numCitiesInState := by positivity
  have hcountries := Nat.mul_pos hstates hstate
  simp only [Suits, radices, weights, DividesAlike, one_mul, mul_count_eq_iff hnonempty, hcities,
    mul_count_eq_iff hstates, mul_count_eq_iff hcountries, implies_true, true_and, and_true,
    and_assoc]

/-! ## Reading an id -/

/-- An id is read segment by segment. -/
theorem convertIDStringToInt_segments (a b c d e f : Str) (ha : a.length = idContinentLen)
    (hb : b.length = idCountryLen) (hc : c.length = idStateLen) (hd : d.length = idCityLen)
    (he : e.length = idDistrictLen) :
    convertIDStringToInt (a ++ (b ++ (c ++ (d ++ (e ++ f))))) p =
      .ok ((p.numNodesInDist * p.numDistsInCity * p.numCitiesRead * p.numStatesInCountry *
          p.numCountriesInContinent : ℕ) * streamInt a +
        (p.numNodesInDist * p.numDistsInCity * p.numCitiesRead * p.numStatesInCountry : ℕ) *
          streamInt b +
        (p.numNodesInDist * p.numDistsInCity * p.numCitiesRead : ℕ) * streamInt c +
        (p.numNodesInDist * p.numDistsInCity : ℕ) * streamInt d +
        (p.numNodesInDist : ℕ) * streamInt e + streamInt f) := by
  have hsingle : substrFrom (a ++ (b ++ (c ++ (d ++ (e ++ f))))) idSingleStart = .ok f := by
    simpa only [List.append_assoc] using
      substrFrom_segment (a ++ (b ++ (c ++ (d ++ e)))) f (by simp [ha, hb, hc, hd, he]; rfl)
  have hdistrict : substr (a ++ (b ++ (c ++ (d ++ (e ++ f))))) idDistrictStart idDistrictLen =
      .ok e := by
    simpa only [List.append_assoc] using
      substr_segment (a ++ (b ++ (c ++ d))) e f (by simp [ha, hb, hc, hd]; rfl) he
  have hcity : substr (a ++ (b ++ (c ++ (d ++ (e ++ f))))) idCityStart idCityLen = .ok d := by
    simpa only [List.append_assoc] using
      substr_segment (a ++ (b ++ c)) d (e ++ f) (by simp [ha, hb, hc]; rfl) hd
  have hstate : substr (a ++ (b ++ (c ++ (d ++ (e ++ f))))) idStateStart idStateLen = .ok c := by
    simpa only [List.append_assoc] using
      substr_segment (a ++ b) c (d ++ (e ++ f)) (by simp [ha, hb]; rfl) hc
  have hcountry : substr (a ++ (b ++ (c ++ (d ++ (e ++ f))))) idCountryStart idCountryLen =
      .ok b :=
    substr_segment a b (c ++ (d ++ (e ++ f))) (by rw [ha]; rfl) hb
  have hcontinent : substr (a ++ (b ++ (c ++ (d ++ (e ++ f))))) idContinentStart idContinentLen =
      .ok a :=
    substr_segment [] a (b ++ (c ++ (d ++ (e ++ f)))) rfl ha
  rw [convertIDStringToInt, hsingle, hdistrict, hcity, hstate, hcountry, hcontinent]
  rfl

/-- The text of an id, from the segments of its levels, lowest first. -/
def idText (single district city state country continent : ℕ) : Str :=
  setw idContinentLen continent ++ (setw idCountryLen country ++ (setw idStateLen state ++
    (setw idCityLen city ++ (setw idDistrictLen district ++ setw idSingleLen single))))

theorem convertIDStringToInt_idText {single district city state country continent : ℕ}
    (hsingle : single < 10 ^ idSingleLen) (hdistrict : district < 10 ^ idDistrictLen)
    (hcity : city < 10 ^ idCityLen) (hstate : state < 10 ^ idStateLen)
    (hcountry : country < 10 ^ idCountryLen) (hcontinent : continent < 10 ^ idContinentLen) :
    convertIDStringToInt (idText single district city state country continent) p =
      .ok (combine p.weights [single, district, city, state, country, continent] : ℕ) := by
  have hread {width n : ℕ} (hwidth : width ≤ 9) (hn : n < 10 ^ width) :
      streamInt (setw width n) = n :=
    streamInt_setw (lt_of_lt_of_le hn ((Nat.pow_le_pow_right (by decide) hwidth).trans (by decide)))
  rw [idText, convertIDStringToInt_segments _ _ _ _ _ _
    (length_setw (by decide) hcontinent) (length_setw (by decide) hcountry)
    (length_setw (by decide) hstate) (length_setw (by decide) hcity)
    (length_setw (by decide) hdistrict), hread (by decide) hcontinent,
    hread (by decide) hcountry, hread (by decide) hstate, hread (by decide) hcity,
    hread (by decide) hdistrict, hread (by decide) hsingle]
  simp only [weights, combine, Nat.cast_add, Nat.cast_mul, Nat.cast_zero, Nat.cast_one]
  congr 1
  ring

/-- The segments of an id are the digits of its number. -/
theorem convertIDIntToString_eq {id : ℕ} (hid : id < p.numNodes) :
    ∃ single district city state country continent,
      digits p.radices id = [single, district, city, state, country, continent] ∧
      convertIDIntToString id p = idText single district city state country continent := by
  refine ⟨_, _, _, _, _, _, rfl, ?_⟩
  have hlast : id / p.numNodesInDist / atLeastOne p.numDistsInCity /
      atLeastOne p.numCitiesInState / atLeastOne p.numStatesInCountry /
      atLeastOne p.numCountriesInContinent < atLeastOne p.numContinents := by
    simp only [Nat.div_div_eq_div_mul]
    apply Nat.div_lt_of_lt_mul
    calc id < p.numNodes := hid
      _ = _ := by
        simp only [numNodes, radices, List.prod_cons, List.prod_nil]
        ring
  rw [Nat.mod_eq_of_lt hlast]
  simp only [Nat.div_div_eq_div_mul]
  rfl

/-- Converting a number there and back combines its digits with the weights. -/
theorem convertID_there_and_back (hfits : p.Fits) {id : ℕ} (hid : id < p.numNodes) :
    convertIDStringToInt (convertIDIntToString id p) p =
      .ok (combine p.weights (digits p.radices id) : ℕ) := by
  have hbound := forall₂_digits (radices_pos hfits.nonempty) id
  obtain ⟨single, district, city, state, country, continent, hdigits, htext⟩ :=
    convertIDIntToString_eq hid
  rw [hdigits] at hbound
  simp only [radices, List.forall₂_cons, List.Forall₂.nil, and_true] at hbound
  obtain ⟨hsingle, hdistrict, hcity, hstate, hcountry, hcontinent⟩ := hbound
  rw [htext, hdigits]
  exact convertIDStringToInt_idText (hsingle.trans_le hfits.single)
    (hdistrict.trans_le hfits.district) (hcity.trans_le hfits.city) (hstate.trans_le hfits.state)
    (hcountry.trans_le hfits.country) (hcontinent.trans_le hfits.continent)

/-- Numbers survive the way to an id and back exactly if both conversions divide
alike. -/
theorem convertID_inverse_iff (hfits : p.Fits) :
    (∀ id < p.numNodes, convertIDStringToInt (convertIDIntToString id p) p = .ok (id : ℤ)) ↔
      p.DividesAlike := by
  rw [← suits_iff hfits.nonempty,
    ← combine_digits_iff (radices_pos hfits.nonempty) (by rfl : p.weights.length = _) 1]
  refine forall₂_congr fun id hid => ?_
  rw [convertID_there_and_back hfits hid, Except.ok.injEq, Nat.cast_inj, one_mul]

/-- Ports of numbers that fit an `unsigned short` differ as the numbers do. -/
theorem port_injective {startingPortNumber m n : ℕ} (hm : m < 2 ^ 16) (hn : n < 2 ^ 16)
    (h : ((startingPortNumber + (m : ℤ)) % 2 ^ 16).toNat =
      ((startingPortNumber + (n : ℤ)) % 2 ^ 16).toNat) : m = n := by
  omega

end Topology

/-- Number and id are inverse, and different nodes have different numbers and
ports, exactly if both conversions divide alike and there are ports for all. -/
theorem idNumbers_inverse_iff (p : Topology) (hfits : p.Fits) :
    ((∀ id < p.numNodes, convertIDStringToInt (convertIDIntToString id p) p = .ok (id : ℤ)) ∧
      ∀ id < p.numNodes, ∀ id' < p.numNodes, id ≠ id' →
        convertIDStringToInt (convertIDIntToString id p) p ≠
          convertIDStringToInt (convertIDIntToString id' p) p ∧
        ∀ startingPortNumber, portOf startingPortNumber (convertIDIntToString id p) p ≠
          portOf startingPortNumber (convertIDIntToString id' p) p) ↔
      p.DividesAlike ∧ p.numNodes ≤ 2 ^ 16 := by
  rw [Topology.convertID_inverse_iff hfits]
  refine and_congr_right fun halike => ?_
  have hread := (Topology.convertID_inverse_iff hfits).mpr halike
  constructor
  · intro hdistinct
    by_contra hmany
    -- the first and the last of 65537 nodes share a port
    obtain ⟨-, hport⟩ := hdistinct 0 (by omega) (2 ^ 16) (by omega) (by decide)
    apply hport 0
    rw [portOf, portOf, hread 0 (by omega), hread (2 ^ 16) (by omega)]
    rfl
  · intro hfew id hid id' hid' hne
    rw [hread id hid, hread id' hid']
    refine ⟨fun heq => hne (Nat.cast_injective (Except.ok.inj heq)), fun start heq => hne ?_⟩
    rw [portOf, portOf, hread id hid, hread id' hid'] at heq
    exact Topology.port_injective (hid.trans_le hfew) (hid'.trans_le hfew) (Except.ok.inj heq)

/-- Two states of two cities with one district of two nodes each, where a city has
one contact node and a district two. -/
def twoStates : Topology where
  numNodesInDist := 2
  numCnodesInDist := 2
  numNodesInCity := 2
  numCnodesInCity := 1
  numNodesInState := 2
  numCnodesInState := 1
  numNodesInCountry := 2
  numCnodesInCountry := 1
  numNodesInContinent := 0
  numContinents := 1
  numCnodesInContinent := 1

/-- Four cities of two districts of two nodes each. -/
def fourCities : Topology where
  numNodesInDist := 2
  numCnodesInDist := 1
  numNodesInCity := 2
  numCnodesInCity := 1
  numNodesInState := 4
  numCnodesInState := 1
  numNodesInCountry := 1
  numCnodesInCountry := 1
  numNodesInContinent := 0
  numContinents := 1
  numCnodesInContinent := 1

theorem idNumbers_inverse_fourCities :
    convertIDStringToInt (convertIDIntToString 13 fourCities) fourCities = .ok 13 :=
  ((idNumbers_inverse_iff fourCities (by constructor <;> decide)).mpr (by decide +kernel)).1
    13 (by decide)

/-- In the two states, the first node of the second state has the number of the
first node of the second city of the first state. -/
theorem idNumbers_not_inverse_twoStates : ¬∀ p : Topology, p.Fits →
    (∀ id < p.numNodes, convertIDStringToInt (convertIDIntToString id p) p = .ok (id : ℤ)) ∧
      ∀ id < p.numNodes, ∀ id' < p.numNodes, id ≠ id' →
        convertIDStringToInt (convertIDIntToString id p) p ≠
          convertIDStringToInt (convertIDIntToString id' p) p ∧
        ∀ startingPortNumber, portOf startingPortNumber (convertIDIntToString id p) p ≠
          portOf startingPortNumber (convertIDIntToString id' p) p := by
  intro h
  have hsame : convertIDStringToInt (convertIDIntToString 4 twoStates) twoStates = .ok 2 ∧
      convertIDStringToInt (convertIDIntToString 2 twoStates) twoStates = .ok 2 := by
    decide +kernel
  have hdiffer := ((h twoStates (by constructor <;> decide)).2 4 (by decide) 2 (by decide)
    (by decide)).1
  exact hdiffer (hsame.1.trans hsame.2.symm)

end Hgfrr
