import Mathlib

/-!
# Stable sorting by a key

Items with the same key keep their order. A sorted list is known from the order
of the items of each key, so that a list kept in parts can be sorted part by
part when the parts do not overlap.
-/

namespace SortedBy

variable {α β κ : Type*} [LinearOrder κ]

def KeyLe (key : α → κ) (a b : α) : Prop := key a ≤ key b

variable {key : α → κ} {items sorted : List α}

instance : DecidableRel (KeyLe key) := fun _ _ => inferInstanceAs (Decidable (_ ≤ _))

instance : IsTrans α (KeyLe key) := ⟨fun _ _ _ hab hbc => le_trans hab hbc⟩

instance : Std.Total (KeyLe key) := ⟨fun _ _ => le_total _ _⟩

def sortBy (key : α → κ) (items : List α) : List α := items.insertionSort (KeyLe key)

theorem sortBy_perm : (sortBy key items).Perm items := List.perm_insertionSort _ items

@[simp] theorem mem_sortBy {a : α} : a ∈ sortBy key items ↔ a ∈ items := sortBy_perm.mem_iff

@[simp] theorem length_sortBy : (sortBy key items).length = items.length := sortBy_perm.length_eq

theorem pairwise_sortBy : (sortBy key items).Pairwise (KeyLe key) :=
  List.pairwise_insertionSort _ items

theorem sortBy_of_pairwise (h : items.Pairwise (KeyLe key)) : sortBy key items = items :=
  h.insertionSort_eq

/-- The first item has the smallest key. -/
theorem le_of_head_sortBy {a b : α} (h : (sortBy key items).head? = some a) (hb : b ∈ items) :
    key a ≤ key b := by
  obtain ⟨rest, hrest⟩ := List.head?_eq_some_iff.mp h
  have hpair : (sortBy key items).Pairwise (KeyLe key) := pairwise_sortBy
  rw [hrest, List.pairwise_cons] at hpair
  rcases List.mem_cons.mp (hrest ▸ mem_sortBy.mpr hb) with rfl | hmem
  · exact le_rfl
  · exact hpair.1 b hmem

/-- Items of one key keep their order. -/
theorem filter_sortBy (k : κ) :
    (sortBy key items).filter (key · = k) = items.filter (key · = k) := by
  have hpair : (items.filter (key · = k)).Pairwise (KeyLe key) := by
    apply List.pairwise_of_forall_mem_list
    intro a ha b hb
    have hka : key a = k := by simpa using (List.mem_filter.mp ha).2
    have hkb : key b = k := by simpa using (List.mem_filter.mp hb).2
    exact (hka.trans hkb.symm).le
  have hsub := (List.sublist_insertionSort hpair List.filter_sublist).filter (key · = k)
  simp only [List.filter_filter, Bool.and_self] at hsub
  exact (hsub.eq_of_length (sortBy_perm.filter _).length_eq.symm).symm

theorem mem_iff_of_filter_eq {left right : List α}
    (h : ∀ k, left.filter (key · = k) = right.filter (key · = k)) (a : α) :
    a ∈ left ↔ a ∈ right := by
  have hiff := congrArg (a ∈ ·) (h (key a))
  simpa using hiff

/-- A sorted list is known from the items of each key. -/
theorem eq_of_filter_eq {left right : List α} (hleft : left.Pairwise (KeyLe key))
    (hright : right.Pairwise (KeyLe key))
    (h : ∀ k, left.filter (key · = k) = right.filter (key · = k)) : left = right := by
  induction left generalizing right with
  | nil =>
      apply Eq.symm
      rw [List.eq_nil_iff_forall_not_mem]
      exact fun b hb => List.not_mem_nil ((mem_iff_of_filter_eq h b).mpr hb)
  | cons a left ih =>
      cases right with
      | nil => exact absurd ((mem_iff_of_filter_eq h a).mp List.mem_cons_self) List.not_mem_nil
      | cons b right =>
          obtain ⟨ha, hleft'⟩ := List.pairwise_cons.mp hleft
          obtain ⟨hb, hright'⟩ := List.pairwise_cons.mp hright
          have hab : key a ≤ key b := by
            rcases List.mem_cons.mp ((mem_iff_of_filter_eq h b).mpr List.mem_cons_self)
              with rfl | hmem
            · exact le_rfl
            · exact ha b hmem
          have hba : key b ≤ key a := by
            rcases List.mem_cons.mp ((mem_iff_of_filter_eq h a).mp List.mem_cons_self)
              with rfl | hmem
            · exact le_rfl
            · exact hb a hmem
          have hkey := le_antisymm hab hba
          have hhead := h (key a)
          rw [List.filter_cons_of_pos (by simp), List.filter_cons_of_pos (by simp [hkey])] at hhead
          obtain rfl := (List.cons.inj hhead).1
          apply congrArg (a :: ·)
          apply ih hleft' hright'
          intro k
          have hk := h k
          simp only [List.filter_cons] at hk
          split at hk
          · exact (List.cons.inj hk).2
          · exact hk

/-- A sorted list with the same items of each key is what the list is sorted
to. -/
theorem sortBy_eq (hsorted : sorted.Pairwise (KeyLe key))
    (h : ∀ k, items.filter (key · = k) = sorted.filter (key · = k)) : sortBy key items = sorted :=
  eq_of_filter_eq pairwise_sortBy hsorted fun k => (filter_sortBy k).trans (h k)

/-- Sorting some of the items. -/
theorem sortBy_filter (p : α → Bool) : sortBy key (items.filter p) = (sortBy key items).filter p :=
  sortBy_eq (pairwise_sortBy.filter p) fun k => by
    rw [List.filter_comm, ← filter_sortBy, List.filter_comm]

/-- The first of the items with a small key. -/
theorem filter_take_of_pairwise {bound : κ} (hsorted : sorted.Pairwise (KeyLe key)) (n : ℕ) :
    (sorted.take n).filter (key · ≤ bound) = (sorted.filter (key · ≤ bound)).take n := by
  induction sorted generalizing n with
  | nil => simp
  | cons a sorted ih =>
      obtain ⟨ha, hsorted⟩ := List.pairwise_cons.mp hsorted
      cases n with
      | zero => simp
      | succ n =>
          by_cases hle : key a ≤ bound
          · simp [hle, ih hsorted]
          · have hnone : ∀ b ∈ sorted, ¬ key b ≤ bound := fun b hb hb' => hle ((ha b hb).trans hb')
            rw [List.take_succ_cons, List.filter_cons_of_neg (by simpa using hle),
              List.filter_cons_of_neg (by simpa using hle), ih hsorted]
            have hnil : sorted.filter (key · ≤ bound) = [] :=
              List.filter_eq_nil_iff.mpr fun b hb => by simpa using hnone b hb
            rw [hnil, List.take_nil, List.take_nil]

/-! ## Sorting part by part -/

/-- The order of the parts does not matter if no two of them hold something. -/
theorem flatMap_eq_of_perm {parts parts' : List β} {contents : β → List α}
    (hperm : parts.Perm parts')
    (h : parts.Pairwise fun b c => contents b = [] ∨ contents c = []) :
    parts.flatMap contents = parts'.flatMap contents := by
  induction hperm with
  | nil => rfl
  | cons b _ ih => rw [List.flatMap_cons, List.flatMap_cons, ih (List.pairwise_cons.mp h).2]
  | swap b c parts =>
      simp only [List.flatMap_cons]
      rcases (List.pairwise_cons.mp h).1 b List.mem_cons_self with hnil | hnil <;> simp [hnil]
  | trans hperm _ ih ih' =>
      exact (ih h).trans (ih' ((hperm.pairwise_iff Or.symm).mp h))

/-- Parts that follow each other can be sorted one by one. -/
theorem sortBy_flatMap {parts parts' : List β} {contents : β → List α} (hperm : parts'.Perm parts)
    (h : parts'.Pairwise fun b c => ∀ x ∈ contents b, ∀ y ∈ contents c, key x < key y) :
    sortBy key (parts.flatMap contents) = parts'.flatMap fun b => sortBy key (contents b) := by
  apply sortBy_eq
  · rw [List.pairwise_flatMap]
    refine ⟨fun b _ => pairwise_sortBy, h.imp ?_⟩
    intro b c hlt x hx y hy
    exact (hlt x (mem_sortBy.mp hx) y (mem_sortBy.mp hy)).le
  · intro k
    simp only [List.filter_flatMap, filter_sortBy]
    refine (flatMap_eq_of_perm hperm (h.imp ?_)).symm
    intro b c hlt
    by_contra hboth
    rw [not_or] at hboth
    obtain ⟨x, hx⟩ := List.exists_mem_of_ne_nil _ hboth.1
    obtain ⟨y, hy⟩ := List.exists_mem_of_ne_nil _ hboth.2
    rw [List.mem_filter, decide_eq_true_eq] at hx hy
    exact (hlt x hx.1 y hy.1).ne (hx.2.trans hy.2.symm)

/-- Only the items up to a bound are needed to know the first ones. -/
theorem take_sortBy_of_sublist {part : List α} {n m : ℕ} (hsorted : sorted.Pairwise (KeyLe key))
    (hsub : part.Sublist sorted) (hpart : part.take m = sorted.take m) (hle : n ≤ m) :
    (sortBy key part).take n = sorted.take n := by
  rw [sortBy_of_pairwise (hsorted.sublist hsub), ← min_eq_left hle, ← List.take_take, hpart,
    List.take_take]

end SortedBy
