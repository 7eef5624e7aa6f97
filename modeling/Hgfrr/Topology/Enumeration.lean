import Hgfrr.Model.AppEth
import Hgfrr.Topology.IdOrder
import Hgfrr.Topology.Shape

/-!
# The ids of all nodes

The nested loops over the levels give the ids of all nodes in the order of their
numbers, and no id twice.
-/

namespace Hgfrr

open MixedRadix

namespace Topology

variable {p : Topology} {m : ℕ}

/-- The coordinates that a list of digits stands for. -/
def digitCoords (digits : List ℕ) : Coords := fun level => digits.getD level 0

/-- The id of a number is the text of its digits. -/
theorem convertIDIntToString_eq_text (hm : m < p.numNodes) :
    convertIDIntToString m p = text (digitCoords (digits p.radices m)) := by
  obtain ⟨single, district, city, state, country, continent, hdigits, htext⟩ :=
    convertIDIntToString_eq hm
  rw [htext, hdigits]
  rfl

/-- Where the numbers of nodes fit, so do the indices of each of them. -/
theorem Fits.indicesFit (hfits : p.Fits) (m : ℕ) : p.IndicesFit m := by
  have hbound := forall₂_digits (radices_pos hfits.nonempty) m
  simp only [radices, digits, List.forall₂_cons, List.Forall₂.nil, and_true] at hbound
  obtain ⟨hsingle, hdistrict, hcity, hstate, hcountry, hcontinent⟩ := hbound
  simp only [IndicesFit, widths, radices, digits, List.forall₂_cons, List.Forall₂.nil, and_true]
  exact ⟨hsingle.trans_le hfits.single, hdistrict.trans_le hfits.district,
    hcity.trans_le hfits.city, hstate.trans_le hfits.state, hcountry.trans_le hfits.country,
    hcontinent.trans_le hfits.continent⟩

theorem numNodesTotal_eq (hcontinents : 0 < p.numContinents) : p.numNodesTotal = p.numNodes := by
  rw [numNodesTotal, numNodes, radices, ← atLeastOne_eq_iff.mpr hcontinents]
  simp only [List.prod_cons, List.prod_nil]
  ring

/-- The nested loops count through all nodes. -/
theorem allIds_eq (hnonempty : 1 ≤ p.numNodesInDist) (hcontinents : 0 < p.numContinents) :
    p.allIds = (List.range p.numNodes).map fun m => convertIDIntToString m p := by
  have htext (m : ℕ) (hm : m ∈ List.range p.numNodes) :
      convertIDIntToString m p = (text ∘ digitCoords ∘ digits p.radices) m :=
    convertIDIntToString_eq_text (List.mem_range.mp hm)
  rw [List.map_congr_left htext, ← List.map_map, ← List.map_map, numNodes,
    ← enumerate_eq (radices_pos hnonempty), radices, ← atLeastOne_eq_iff.mpr hcontinents]
  simp only [enumerate, List.flatMap_singleton, List.flatMap_assoc, List.flatMap_map,
    List.map_flatMap, List.map_map]
  rfl

end Topology

end Hgfrr
