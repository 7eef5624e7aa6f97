import Mathlib

/-!
# Maps as lists of entries

A map is the list of its entries in some order. Assigning to a key replaces the
value of the entry with that key, or adds one.
-/

namespace AssocMap

variable {κ α : Type*} [BEq κ]

/-- Assign a value to a key. -/
def assign (key : κ) (value : α) : List (κ × α) → List (κ × α)
  | [] => [(key, value)]
  | entry :: map => if entry.1 == key then (key, value) :: map else entry :: assign key value map

/-- Assign a list of entries, one after the other. -/
def assignAll (entries map : List (κ × α)) : List (κ × α) :=
  entries.foldl (fun map entry => assign entry.1 entry.2 map) map

variable [LawfulBEq κ] {key other : κ} {value : α} {entries map : List (κ × α)}

theorem mem_of_lookup (h : map.lookup key = some value) : (key, value) ∈ map := by
  obtain ⟨front, rest, rfl, _⟩ := List.lookup_eq_some_iff.mp h
  simp

theorem lookup_assign_self : (assign key value map).lookup key = some value := by
  induction map with
  | nil => simp [assign]
  | cons entry map ih =>
      unfold assign
      split
      next => simp
      next hne =>
        rw [List.lookup_cons, beq_eq_false_iff_ne.mpr fun heq => hne (beq_iff_eq.mpr heq.symm)]
        exact ih

theorem lookup_assign_of_ne (hne : other ≠ key) :
    (assign key value map).lookup other = map.lookup other := by
  have hfalse : (other == key) = false := beq_eq_false_iff_ne.mpr hne
  induction map with
  | nil => simp [assign, List.lookup_cons, hfalse]
  | cons entry map ih =>
      unfold assign
      split
      next heq =>
        obtain rfl := beq_iff_eq.mp heq
        rw [List.lookup_cons, List.lookup_cons, hfalse]
      next => rw [List.lookup_cons, List.lookup_cons, ih]

/-- A new key is added at the end. -/
theorem assign_of_not_mem (h : key ∉ map.map Prod.fst) :
    assign key value map = map ++ [(key, value)] := by
  induction map with
  | nil => rfl
  | cons entry map ih =>
      rw [List.map_cons, List.mem_cons, not_or] at h
      rw [assign, if_neg fun heq => h.1 (beq_iff_eq.mp heq).symm, ih h.2, List.cons_append]

theorem exists_lookup_of_mem (h : key ∈ map.map Prod.fst) :
    ∃ value, map.lookup key = some value := by
  apply Option.ne_none_iff_exists'.mp
  intro hnone
  obtain ⟨entry, hentry, rfl⟩ := List.mem_map.mp h
  exact absurd (List.lookup_eq_none_iff.mp hnone entry hentry) (by simp)

theorem mem_map_fst_of_lookup (h : map.lookup key = some value) : key ∈ map.map Prod.fst :=
  List.mem_map_of_mem (f := Prod.fst) (mem_of_lookup h)

/-- The value that is there already. -/
theorem assign_of_lookup (h : map.lookup key = some value) : assign key value map = map := by
  induction map with
  | nil => exact absurd h (by simp)
  | cons entry map ih =>
      unfold assign
      split
      next heq =>
        obtain rfl := beq_iff_eq.mp heq
        rw [List.lookup_cons_self, Option.some.injEq] at h
        rw [← h]
      next hne =>
        rw [List.lookup_cons, beq_eq_false_iff_ne.mpr fun heq => hne (beq_iff_eq.mpr heq.symm)] at h
        rw [ih h]

/-- A sum over the values after an assignment. -/
theorem sum_map_assign (f : α → ℕ) {found : α} (h : map.lookup key = some found) :
    ((assign key value map).map fun entry => f entry.2).sum + f found =
      (map.map fun entry => f entry.2).sum + f value := by
  induction map with
  | nil => exact absurd h (by simp)
  | cons entry map ih =>
      unfold assign
      split
      next heq =>
        obtain rfl := beq_iff_eq.mp heq
        rw [List.lookup_cons_self, Option.some.injEq] at h
        rw [List.map_cons, List.map_cons, List.sum_cons, List.sum_cons, h]
        dsimp only
        omega
      next hne =>
        rw [List.lookup_cons, beq_eq_false_iff_ne.mpr fun heq => hne (beq_iff_eq.mpr heq.symm)] at h
        rw [List.map_cons, List.map_cons, List.sum_cons, List.sum_cons, Nat.add_assoc, ih h,
          Nat.add_assoc]

theorem lookup_of_mem (hnodup : (map.map Prod.fst).Nodup) (h : (key, value) ∈ map) :
    map.lookup key = some value := by
  obtain ⟨found, hfound⟩ := exists_lookup_of_mem (List.mem_map_of_mem (f := Prod.fst) h)
  have heq := List.inj_on_of_nodup_map hnodup (mem_of_lookup hfound) h rfl
  rw [hfound, (Prod.mk.inj heq).2]

omit [LawfulBEq κ] in
theorem mem_assign {entry : κ × α} (h : entry ∈ assign key value map) :
    entry = (key, value) ∨ entry ∈ map := by
  induction map with
  | nil => exact Or.inl (List.mem_singleton.mp h)
  | cons head map ih =>
      unfold assign at h
      split at h
      next =>
        rcases List.mem_cons.mp h with rfl | hmem
        · exact Or.inl rfl
        · exact Or.inr (List.mem_cons_of_mem _ hmem)
      next =>
        rcases List.mem_cons.mp h with rfl | hmem
        · exact Or.inr List.mem_cons_self
        · exact (ih hmem).imp_right (List.mem_cons_of_mem _)

theorem map_fst_assign_of_mem (h : key ∈ map.map Prod.fst) :
    (assign key value map).map Prod.fst = map.map Prod.fst := by
  induction map with
  | nil => exact absurd h List.not_mem_nil
  | cons head map ih =>
      unfold assign
      split
      next heq => rw [List.map_cons, List.map_cons, beq_iff_eq.mp heq]
      next hne =>
        rcases List.mem_cons.mp h with heq | hmem
        · exact absurd (beq_iff_eq.mpr heq.symm) hne
        · rw [List.map_cons, List.map_cons, ih hmem]

/-- Keys stay distinct. -/
theorem nodup_assign (h : (map.map Prod.fst).Nodup) :
    ((assign key value map).map Prod.fst).Nodup := by
  by_cases hmem : key ∈ map.map Prod.fst
  · rwa [map_fst_assign_of_mem hmem]
  · rw [assign_of_not_mem hmem, List.map_append, List.map_singleton, ← List.concat_eq_append]
    exact h.concat hmem

theorem assignAll_of_nodup (h : ((map ++ entries).map Prod.fst).Nodup) :
    assignAll entries map = map ++ entries := by
  induction entries generalizing map with
  | nil => simp [assignAll]
  | cons entry entries ih =>
      have hnot : entry.1 ∉ map.map Prod.fst := by
        intro hmem
        rw [List.map_append, List.nodup_append] at h
        exact h.2.2 _ hmem _ (by simp) rfl
      rw [assignAll, List.foldl_cons, assign_of_not_mem hnot]
      apply (ih (by simpa using h)).trans
      simp

/-- A key of the map after an assignment was one before, or is the one assigned
to. -/
theorem eq_or_of_lookup_assign {found : α}
    (h : (assign key value map).lookup other = some found) :
    (other = key ∧ found = value) ∨ map.lookup other = some found := by
  by_cases heq : other = key
  · rw [heq, lookup_assign_self, Option.some.injEq] at h
    exact Or.inl ⟨heq, h.symm⟩
  · exact Or.inr (lookup_assign_of_ne heq ▸ h)

theorem eq_or_of_lookup_assignAll {found : α}
    (h : (assignAll entries map).lookup other = some found) :
    (other, found) ∈ entries ∨ map.lookup other = some found := by
  induction entries generalizing map with
  | nil => exact Or.inr h
  | cons entry entries ih =>
      rcases ih h with hmem | hlookup
      · exact Or.inl (List.mem_cons_of_mem _ hmem)
      · rcases eq_or_of_lookup_assign hlookup with ⟨rfl, rfl⟩ | hlookup
        · exact Or.inl List.mem_cons_self
        · exact Or.inr hlookup

/-- An entry is found if it was found before or is assigned, and no other entry
for its key is assigned. -/
theorem lookup_assignAll (hsame : ∀ entry ∈ entries, entry.1 = key → entry.2 = value)
    (h : map.lookup key = some value ∨ (key, value) ∈ entries) :
    (assignAll entries map).lookup key = some value := by
  induction entries generalizing map with
  | nil => exact h.elim id fun hmem => absurd hmem List.not_mem_nil
  | cons entry entries ih =>
      obtain ⟨hentry, hrest⟩ := List.forall_mem_cons.mp hsame
      apply ih hrest
      by_cases heq : entry.1 = key
      · subst heq
        obtain rfl := hentry rfl
        exact Or.inl lookup_assign_self
      · rcases h with hlookup | hmem
        · exact Or.inl ((lookup_assign_of_ne (Ne.symm heq)).trans hlookup)
        · rcases List.mem_cons.mp hmem with rfl | hmem
          · exact absurd rfl heq
          · exact Or.inr hmem

end AssocMap
