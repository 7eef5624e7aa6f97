import Hgfrr.Overlay.Regions
import Hgfrr.Topology.IdNumbers

/-!
# Ids of coordinates

The id of a node has a segment for each of its coordinates, the highest level
first. As long as the numbers fit their segments, cutting an id at a level
separates the regions above from the node's place below.
-/

namespace Hgfrr

open Coords

/-- The length of the segment of a level. -/
def idLen : ℕ → ℕ
  | 0 => idSingleLen
  | 1 => idDistrictLen
  | 2 => idCityLen
  | 3 => idStateLen
  | 4 => idCountryLen
  | 5 => idContinentLen
  | _ => 0

/-- Where the segment of a level starts. -/
def idStart : ℕ → ℕ
  | 0 => idSingleStart
  | 1 => idDistrictStart
  | 2 => idCityStart
  | 3 => idStateStart
  | 4 => idCountryStart
  | _ => idContinentStart

/-- The id of a node. -/
def text (x : Coords) : Str := Topology.idText (x 0) (x 1) (x 2) (x 3) (x 4) (x 5)

/-- Every number fits its segment. -/
def FitsText (x : Coords) : Prop := ∀ l < 6, x l < 10 ^ idLen l

/-- The segments up to a level. -/
def lowText : ℕ → Coords → Str
  | 0, x => setw (idLen 0) (x 0)
  | l + 1, x => setw (idLen (l + 1)) (x (l + 1)) ++ lowText l x

/-- The segments of some levels above another. -/
def upText (l : ℕ) : ℕ → Coords → Str
  | 0, _ => []
  | n + 1, x => setw (idLen (l + n + 1)) (x (l + n + 1)) ++ upText l n x

section Segments

variable {l n i : ℕ} {x y c : Coords}

theorem idLen_pos (hl : l < 6) : 0 < idLen l := by
  interval_cases l <;> decide

theorem idStart_add_idLen (hl : l + 1 < 6) : idStart (l + 1) + idLen (l + 1) = idStart l := by
  have hfive : l < 5 := by omega
  interval_cases l <;> rfl

theorem text_eq_lowText (x : Coords) : text x = lowText 5 x := rfl

theorem lowText_add (l n : ℕ) (x : Coords) : lowText (l + n) x = upText l n x ++ lowText l x := by
  induction n with
  | zero => rfl
  | succ n ih => rw [← Nat.add_assoc, lowText, ih, upText, List.append_assoc]

theorem lowText_congr (h : ∀ k ≤ l, x k = y k) : lowText l x = lowText l y := by
  induction l with
  | zero => rw [lowText, lowText, h 0 le_rfl]
  | succ l ih => rw [lowText, lowText, h (l + 1) le_rfl, ih fun k hk => h k (by omega)]

theorem upText_congr (h : AgreeFrom (l + 1) x y) : upText l n x = upText l n y := by
  induction n with
  | zero => rfl
  | succ n ih => rw [upText, upText, h (l + n + 1) (by omega), ih]

theorem lowText_move (l i : ℕ) (c x : Coords) :
    lowText (l + 1) (move (l + 1) i c x) = setw (idLen (l + 1)) i ++ lowText l c := by
  rw [lowText, move_at]
  congr 1
  exact lowText_congr fun k hk => by simp [move, Nat.lt_succ_of_le hk]

theorem length_lowText (hl : l < 6) (h : ∀ k ≤ l, x k < 10 ^ idLen k) :
    (lowText l x).length + idStart l = 32 := by
  induction l with
  | zero =>
      rw [lowText, length_setw (by decide) (h 0 le_rfl)]
      rfl
  | succ l ih =>
      have hlow := ih (by omega) fun k hk => h k (by omega)
      have hstart := idStart_add_idLen hl
      rw [lowText, List.length_append, length_setw (idLen_pos hl) (h _ le_rfl)]
      omega

theorem length_text (h : FitsText x) : (text x).length = 32 := by
  have hlength := length_lowText (l := 5) (x := x) (by decide) fun k hk => h k (by omega)
  rw [text_eq_lowText]
  simpa [idStart, idContinentStart] using hlength

theorem length_upText (hl : l < 6) (h : ∀ k, l < k → k < 6 → x k < 10 ^ idLen k) :
    (upText l (5 - l) x).length = idStart l := by
  have hlength {k : ℕ} (hk : l < k) (hk' : k < 6) : (setw (idLen k) (x k)).length = idLen k :=
    length_setw (idLen_pos hk') (h k hk hk')
  interval_cases l <;> simp [upText, hlength] <;> rfl

theorem text_split (hl : l < 6) (x : Coords) : text x = upText l (5 - l) x ++ lowText l x := by
  rw [text_eq_lowText, ← lowText_add, Nat.add_sub_cancel' (by omega)]

/-- What stands before the segment of a level. -/
theorem take_text (hl : l < 6) (h : ∀ k, l < k → k < 6 → x k < 10 ^ idLen k) :
    (text x).take (idStart l) = upText l (5 - l) x := by
  rw [text_split hl, ← length_upText hl h, List.take_left]

/-- What stands from the segment of a level on. -/
theorem drop_text (hl : l < 6) (h : ∀ k, l < k → k < 6 → x k < 10 ^ idLen k) :
    (text x).drop (idStart l) = lowText l x := by
  rw [text_split hl, ← length_upText hl h, List.drop_left]

/-- An id put together as the tables are built: the own regions above a level, a number,
and the place of a node below. -/
theorem text_move (hl : l + 1 < 6) (hx : FitsText x) (hc : AgreeFrom (l + 1) x c) :
    (text x).take (idStart (l + 1)) ++ setw (idLen (l + 1)) i ++ (text c).drop (idStart l) =
      text (move (l + 1) i c x) := by
  have hfits (k : ℕ) (hk : l < k) (hk' : k < 6) : c k < 10 ^ idLen k := hc k hk ▸ hx k hk'
  rw [take_text hl fun k _ hk => hx k hk, drop_text (by omega) hfits, text_split hl,
    lowText_move, List.append_assoc, upText_congr agreeFrom_move]

theorem text_move_zero (hx : FitsText x) :
    (text x).take idSingleStart ++ setw idSingleLen i = text (move 0 i x x) := by
  have htake := take_text (l := 0) (by decide) fun k _ hk => hx k hk
  rw [show idSingleStart = idStart 0 from rfl, htake, text_split (l := 0) (by decide),
    upText_congr (n := 5 - 0) agreeFrom_move, lowText, move_at]
  rfl

theorem setw_injective (width : ℕ) : Function.Injective (setw width) :=
  Decimal.padded_injective width

/-- The segments can be told apart while those below are as long as they should be. -/
theorem lowText_inj (hl : l < 6) (hx : ∀ k < l, x k < 10 ^ idLen k)
    (hy : ∀ k < l, y k < 10 ^ idLen k) (h : lowText l x = lowText l y) : ∀ k ≤ l, x k = y k := by
  induction l with
  | zero =>
      intro k hk
      obtain rfl : k = 0 := by omega
      exact setw_injective _ h
  | succ l ih =>
      have hlowx := length_lowText (l := l) (by omega) fun k hk => hx k (by omega)
      have hlowy := length_lowText (l := l) (by omega) fun k hk => hy k (by omega)
      rw [lowText, lowText] at h
      obtain ⟨hnumber, hlow⟩ := List.append_inj' h (by omega)
      intro k hk
      rcases hk.eq_or_lt with rfl | hlt
      · exact setw_injective _ hnumber
      · exact ih (by omega) (fun k hk => hx k (by omega)) (fun k hk => hy k (by omega)) hlow k
          (by omega)

/-- Segments are never too short, and none is too long in a text that is not. -/
theorem fits_of_length_lowText (hl : l < 6) :
    32 ≤ (lowText l x).length + idStart l ∧
      ((lowText l x).length + idStart l ≤ 32 → ∀ k ≤ l, x k < 10 ^ idLen k) := by
  have hsegment (k : ℕ) : idLen k ≤ (setw (idLen k) (x k)).length :=
    Decimal.width_le_length_padded _ _
  induction l with
  | zero =>
      have hzero := hsegment 0
      refine ⟨?_, fun hlength k hk => ?_⟩
      · simp only [lowText, idStart, idSingleStart, idLen, idSingleLen] at *
        omega
      · obtain rfl : k = 0 := by omega
        refine Decimal.lt_of_length_padded_le (by decide) ?_
        simp only [lowText, idStart, idSingleStart, idLen, idSingleLen, setw] at *
        omega
  | succ l ih =>
      obtain ⟨hlow, hfits⟩ := ih (by omega)
      have hown := hsegment (l + 1)
      have hstart := idStart_add_idLen hl
      rw [lowText, List.length_append]
      refine ⟨by omega, fun hlength k hk => ?_⟩
      rcases hk.eq_or_lt with rfl | hlt
      · exact Decimal.lt_of_length_padded_le (idLen_pos hl) (by rw [← setw]; omega)
      · exact hfits (by omega) k (by omega)

/-- An id of the usual length has only numbers that fit. -/
theorem fitsText_iff_length : FitsText x ↔ (text x).length = 32 := by
  refine ⟨length_text, fun h k hk => ?_⟩
  refine (fits_of_length_lowText (l := 5) (by decide)).2 ?_ k (by omega)
  rw [← text_eq_lowText, h]
  decide

theorem le_length_text (x : Coords) : 32 ≤ (text x).length :=
  (fits_of_length_lowText (l := 5) (by decide)).1

end Segments

end Hgfrr
