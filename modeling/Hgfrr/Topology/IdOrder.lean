import Hgfrr.Foundation.Segments
import Hgfrr.Topology.IdNumbers

/-!
# The order of ids

An id has the level indices of a node as segments, the continent first. Ids of the same
topology are ordered as the numbers of their nodes, so different nodes have different ids.
-/

namespace Hgfrr

open MixedRadix

namespace Topology

/-- The widths of the segments of an id, lowest level first. -/
def widths : List ℕ :=
  [idSingleLen, idDistrictLen, idCityLen, idStateLen, idCountryLen, idContinentLen]

/-- Every level index of a node fits its segment. -/
def IndicesFit (p : Topology) (id : ℕ) : Prop :=
  List.Forall₂ (fun width digit => digit < 10 ^ width) widths (digits p.radices id)

instance (p : Topology) (id : ℕ) : Decidable (p.IndicesFit id) :=
  inferInstanceAs (Decidable (List.Forall₂ _ _ _))

variable {p : Topology} {a b id : ℕ}

theorem convertIDIntToString_eq_segments (hid : id < p.numNodes) :
    convertIDIntToString id p = Decimal.segments widths (digits p.radices id) := by
  obtain ⟨single, district, city, state, country, continent, hdigits, htext⟩ :=
    convertIDIntToString_eq hid
  rw [htext, hdigits, idText]
  simp only [widths, Decimal.segments, setw, List.nil_append, List.append_assoc]

theorem IndicesFit.fit (h : p.IndicesFit id) : Decimal.Fit widths (digits p.radices id) := by
  rw [Decimal.Fit, List.forall₂_and_left]
  exact ⟨by decide, h⟩

theorem convertIDIntToString_lt (hab : a < b) (hb : b < p.numNodes) (hfita : p.IndicesFit a)
    (hfitb : p.IndicesFit b) : convertIDIntToString a p < convertIDIntToString b p := by
  rw [convertIDIntToString_eq_segments (hab.trans hb), convertIDIntToString_eq_segments hb]
  exact Decimal.segments_lt hfita.fit hfitb.fit (digits_below hab hb)

/-- Different nodes have different ids. -/
theorem convertIDIntToString_inj (ha : a < p.numNodes) (hb : b < p.numNodes)
    (hfita : p.IndicesFit a) (hfitb : p.IndicesFit b)
    (h : convertIDIntToString a p = convertIDIntToString b p) : a = b := by
  rcases lt_trichotomy a b with hlt | heq | hgt
  · exact absurd h (convertIDIntToString_lt hlt hb hfita hfitb).ne
  · exact heq
  · exact absurd h.symm (convertIDIntToString_lt hgt ha hfitb hfita).ne

end Topology

/-- A text of as many digits as an id has. -/
structure IsIdText (id : Str) : Prop where
  length : id.length = 32
  digits : ∀ c ∈ id, c.isDigit

theorem isIdText_convertIDIntToString {p : Topology} {id : ℕ} (hid : id < p.numNodes)
    (hfit : p.IndicesFit id) : IsIdText (convertIDIntToString id p) := by
  rw [Topology.convertIDIntToString_eq_segments hid]
  exact ⟨Decimal.length_segments hfit.fit, fun c => Decimal.isDigit_of_mem_segments⟩

/-- Numbers of nodes become ids of 32 digits in the same order. -/
theorem convertIDIntToString_strictMono (p : Topology) (a b : ℕ) (hab : a < b)
    (hb : b < p.numNodes) (hfita : p.IndicesFit a) (hfitb : p.IndicesFit b) :
    IsIdText (convertIDIntToString a p) ∧ IsIdText (convertIDIntToString b p) ∧
      convertIDIntToString a p < convertIDIntToString b p :=
  ⟨isIdText_convertIDIntToString (hab.trans hb) hfita, isIdText_convertIDIntToString hb hfitb,
    Topology.convertIDIntToString_lt hab hb hfita hfitb⟩

theorem convertIDIntToString_strictMono_fourCities :
    IsIdText (convertIDIntToString 5 fourCities) ∧ IsIdText (convertIDIntToString 13 fourCities) ∧
      convertIDIntToString 5 fourCities < convertIDIntToString 13 fourCities :=
  convertIDIntToString_strictMono fourCities 5 13 (by decide) (by decide) (by decide) (by decide)

end Hgfrr
