import Hgfrr.Model.Utils
import Hgfrr.Protocol.Network

/-!
# The class of the simulated delay

A delay stands for the widest region in which sender and receiver differ. The
segments are compared with `substr(start, start + length)`, so from the second
one on a comparison reads on into the narrower segments.
-/

namespace Hgfrr

/-- Two ids have the same `len` characters from `pos` on. -/
def AgreeOn (a b : Str) (pos len : ℕ) : Prop := (a.drop pos).take len = (b.drop pos).take len

instance (a b : Str) (pos len : ℕ) : Decidable (AgreeOn a b pos len) :=
  inferInstanceAs (Decidable ((a.drop pos).take len = (b.drop pos).take len))

/-- The class that the widest differing region stands for, five for a continent and
zero when the nodes share their district. -/
def widestDifference (a b : Str) : ℕ :=
  if ¬ AgreeOn a b idContinentStart idContinentLen then 5
  else if ¬ AgreeOn a b idCountryStart idCountryLen then 4
  else if ¬ AgreeOn a b idStateStart idStateLen then 3
  else if ¬ AgreeOn a b idCityStart idCityLen then 2
  else if ¬ AgreeOn a b idDistrictStart idDistrictLen then 1
  else 0

/-- Pairs whose class comes out right: the nodes are in different continents or
countries, or in different states whose numbers agree on the first three digits, or
they are one node. -/
def DelayExact (a b : Str) : Prop :=
  ¬ AgreeOn a b idContinentStart idContinentLen ∨
    ¬ AgreeOn a b idCountryStart idCountryLen ∨
    (¬ AgreeOn a b idStateStart idStateLen ∧ AgreeOn a b idStateStart 3) ∨ a = b

section Segments

variable {a b : Str}

/-- A segment agrees when its two parts do. -/
theorem agreeOn_add_iff {pos m n : ℕ} :
    AgreeOn a b pos (m + n) ↔ AgreeOn a b pos m ∧ AgreeOn a b (pos + m) n := by
  simp only [AgreeOn, ← List.drop_drop]
  constructor
  · intro h
    refine ⟨?_, ?_⟩
    · have htake := congrArg (List.take m) h
      rwa [List.take_take, List.take_take, Nat.min_eq_left (Nat.le_add_right m n)] at htake
    · have hdrop := congrArg (List.drop m) h
      rwa [List.drop_take, List.drop_take, Nat.add_sub_cancel_left] at hdrop
  · rintro ⟨hfirst, hsecond⟩
    rw [List.take_add, List.take_add, hfirst, hsecond]

/-- Reading past the end adds nothing. -/
theorem agreeOn_of_end {pos m n : ℕ} (ha : a.length ≤ pos + m) (hb : b.length ≤ pos + m)
    (hmn : m ≤ n) : AgreeOn a b pos n ↔ AgreeOn a b pos m := by
  have htake : ∀ s : Str, s.length ≤ pos + m → (s.drop pos).take n = (s.drop pos).take m := by
    intro s hs
    rw [List.take_of_length_le (by rw [List.length_drop]; omega),
      List.take_of_length_le (by rw [List.length_drop]; omega)]
  rw [AgreeOn, AgreeOn, htake a ha, htake b hb]

/-- The comparisons that the program makes, for ids of full length. -/
theorem hopDelay_eq (ha : a.length = 32) (hb : b.length = 32) :
    hopDelay a b = .ok (
      if ¬ AgreeOn a b 0 3 then 5
      else if ¬ AgreeOn a b 3 7 then 4
      else if ¬ AgreeOn a b 7 12 then 3
      else if ¬ AgreeOn a b 12 18 then 2
      else if ¬ AgreeOn a b 18 23 then 1
      else 0) := by
  have hsubstr : ∀ {s : Str} {pos : ℕ} (len : ℕ), s.length = 32 → pos ≤ 32 →
      substr s pos len = .ok ((s.drop pos).take len) :=
    fun len hs hpos => substr_of_le (hs ▸ hpos)
  unfold hopDelay
  simp only [hsubstr _ ha (show 0 ≤ 32 by omega), hsubstr _ hb (show 0 ≤ 32 by omega),
    hsubstr _ ha (show 3 ≤ 32 by omega), hsubstr _ hb (show 3 ≤ 32 by omega),
    hsubstr _ ha (show 7 ≤ 32 by omega), hsubstr _ hb (show 7 ≤ 32 by omega),
    hsubstr _ ha (show 12 ≤ 32 by omega), hsubstr _ hb (show 12 ≤ 32 by omega),
    hsubstr _ ha (show 18 ≤ 32 by omega), hsubstr _ hb (show 18 ≤ 32 by omega),
    bind, Except.bind, pure, Except.pure, AgreeOn, Nat.reduceAdd, ne_eq]
  split_ifs <;> simp_all

/-- What the comparisons come to, in terms of segments. -/
theorem comparisons_iff (ha : a.length = 32) (hb : b.length = 32) :
    (AgreeOn a b 3 7 ↔ AgreeOn a b 3 4 ∧ AgreeOn a b 7 3) ∧
    (AgreeOn a b 7 12 ↔ AgreeOn a b 7 5 ∧ AgreeOn a b 12 6 ∧ AgreeOn a b 18 1) ∧
    (AgreeOn a b 12 18 ↔ AgreeOn a b 12 6 ∧ AgreeOn a b 18 5 ∧ AgreeOn a b 23 7) ∧
    (AgreeOn a b 18 23 ↔ AgreeOn a b 18 5 ∧ AgreeOn a b 23 9) := by
  refine ⟨agreeOn_add_iff (m := 4) (n := 3), ?_, ?_, ?_⟩
  · rw [show 12 = 5 + (6 + 1) from rfl, agreeOn_add_iff, agreeOn_add_iff]
  · rw [show 18 = 6 + (5 + 7) from rfl, agreeOn_add_iff, agreeOn_add_iff]
  · rw [agreeOn_of_end (m := 14) (by omega) (by omega) (by omega),
      show 14 = 5 + 9 from rfl, agreeOn_add_iff]

/-- An id is made of its segments. -/
theorem eq_iff_agreeOn (ha : a.length = 32) (hb : b.length = 32) :
    a = b ↔ AgreeOn a b 0 3 ∧ AgreeOn a b 3 4 ∧ AgreeOn a b 7 5 ∧ AgreeOn a b 12 6 ∧
      AgreeOn a b 18 5 ∧ AgreeOn a b 23 9 := by
  have hwhole : a = b ↔ AgreeOn a b 0 (3 + (4 + (5 + (6 + (5 + 9))))) := by
    rw [AgreeOn, List.drop_zero, List.drop_zero, List.take_of_length_le (by omega),
      List.take_of_length_le (by omega)]
  rw [hwhole, agreeOn_add_iff, agreeOn_add_iff, agreeOn_add_iff, agreeOn_add_iff, agreeOn_add_iff]

end Segments

/-- The delay class of a message is that of the widest region in which the two nodes
differ, for these pairs and no others. -/
theorem hopDelay_eq_widestDifference_iff {a b : Str} (ha : a.length = 32) (hb : b.length = 32) :
    hopDelay a b = .ok (widestDifference a b) ↔ DelayExact a b := by
  obtain ⟨hcountry, hstate, hcity, hdistrict⟩ := comparisons_iff ha hb
  have hstate₃ : AgreeOn a b 7 5 → AgreeOn a b 7 3 := fun h =>
    (agreeOn_add_iff (m := 3) (n := 2).mp h).1
  have hdistrict₁ : AgreeOn a b 18 5 → AgreeOn a b 18 1 := fun h =>
    (agreeOn_add_iff (m := 1) (n := 4).mp h).1
  have hsingle₇ : AgreeOn a b 23 9 → AgreeOn a b 23 7 := fun h =>
    (agreeOn_add_iff (m := 7) (n := 2).mp h).1
  rw [hopDelay_eq ha hb, Except.ok.injEq, DelayExact, eq_iff_agreeOn ha hb]
  simp only [widestDifference, idContinentStart, idContinentLen, idCountryStart, idCountryLen,
    idStateStart, idStateLen, idCityStart, idCityLen, idDistrictStart, idDistrictLen]
  -- the widest differing region decides which of the comparisons is the first to fail
  by_cases hContinent : AgreeOn a b 0 3
  · by_cases hCountry : AgreeOn a b 3 4
    · by_cases hState : AgreeOn a b 7 5
      · by_cases hCity : AgreeOn a b 12 6
        · by_cases hDistrict : AgreeOn a b 18 5
          · by_cases hSingle : AgreeOn a b 23 9
            · simp [hContinent, hcountry, hCountry, hstate, hState, hstate₃ hState, hcity, hCity,
                hdistrict, hDistrict, hdistrict₁ hDistrict, hSingle, hsingle₇ hSingle]
            · simp [hContinent, hcountry, hCountry, hstate, hState, hstate₃ hState, hcity, hCity,
                hdistrict, hDistrict, hdistrict₁ hDistrict, hSingle]
              split_ifs <;> decide
          · simp [hContinent, hcountry, hCountry, hstate, hState, hstate₃ hState, hcity, hCity,
              hDistrict]
            split_ifs <;> decide
        · simp [hContinent, hcountry, hCountry, hstate, hState, hstate₃ hState, hCity]
      · simp [hContinent, hcountry, hCountry, hstate, hState]
    · simp [hContinent, hcountry, hCountry]
  · simp [hContinent]

theorem hopDelay_eq_widestDifference_iff_countries :
    hopDelay (firstRegionId 0) (setw 3 0 ++ (setw 4 1 ++ (firstRegionId 0).drop 7)) =
        .ok (widestDifference (firstRegionId 0)
          (setw 3 0 ++ (setw 4 1 ++ (firstRegionId 0).drop 7))) ↔
      DelayExact (firstRegionId 0) (setw 3 0 ++ (setw 4 1 ++ (firstRegionId 0).drop 7)) :=
  hopDelay_eq_widestDifference_iff (by decide) (by decide)

/-- Two nodes of one district get the delay of nodes in different districts. -/
theorem hopDelay_of_neighbours : ¬ ∀ a b : Str, a.length = 32 → b.length = 32 →
    hopDelay a b = .ok (widestDifference a b) := by
  intro h
  have hpair := h (firstRegionId 0) (firstRegionId 1) (by decide) (by decide)
  revert hpair
  decide

end Hgfrr
