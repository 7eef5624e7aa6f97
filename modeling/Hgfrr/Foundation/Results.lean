import Mathlib

/-!
# Computations that may fail

When a chain of fallible steps, or a pass over a list, ends with a value and when it
ends with an error.
-/

namespace Except

universe u

variable {ε : Type*} {α β : Type u}

/-- What comes after a value. -/
theorem ok_bind (a : α) (f : α → Except ε β) : Except.ok a >>= f = f a := rfl

/-- A chain has a value when both of its parts have. -/
theorem bind_eq_ok {x : Except ε α} {f : α → Except ε β} {b : β} :
    x >>= f = .ok b ↔ ∃ a, x = .ok a ∧ f a = .ok b := by
  cases x <;> simp [bind, Except.bind]

/-- A chain fails in its first part or in what follows the value of it. -/
theorem bind_eq_error {x : Except ε α} {f : α → Except ε β} {e : ε} :
    x >>= f = .error e ↔ x = .error e ∨ ∃ a, x = .ok a ∧ f a = .error e := by
  cases x <;> simp [bind, Except.bind]

variable {compute : α → Except ε β} {items : List α}

/-- What a pass over a list yields was computed from one of its items. -/
theorem mapM_eq_ok {results : List β} (h : items.mapM compute = .ok results) {b : β}
    (hb : b ∈ results) : ∃ a ∈ items, compute a = .ok b := by
  induction items generalizing results with
  | nil =>
      obtain rfl : [] = results := Except.ok.inj h
      simp at hb
  | cons a items ih =>
      rw [List.mapM_cons] at h
      obtain ⟨b', hb', h⟩ := bind_eq_ok.mp h
      obtain ⟨rest, hrest, h⟩ := bind_eq_ok.mp h
      obtain rfl : b' :: rest = results := Except.ok.inj h
      rcases List.mem_cons.mp hb with rfl | hb
      · exact ⟨a, by simp, hb'⟩
      · obtain ⟨a', ha', hok⟩ := ih hrest hb
        exact ⟨a', List.mem_cons_of_mem _ ha', hok⟩

/-- A pass over a list fails where one of its items does. -/
theorem mapM_eq_error {e : ε} (h : items.mapM compute = .error e) :
    ∃ a ∈ items, compute a = .error e := by
  induction items with
  | nil => cases h
  | cons a items ih =>
      rw [List.mapM_cons] at h
      rcases bind_eq_error.mp h with h | ⟨b, _, h⟩
      · exact ⟨a, by simp, h⟩
      · rcases bind_eq_error.mp h with h | ⟨rest, _, h⟩
        · obtain ⟨a', ha', herror⟩ := ih h
          exact ⟨a', List.mem_cons_of_mem _ ha', herror⟩
        · cases h

/-- A pass over a list ends with a value when every item has one. -/
theorem exists_mapM_ok_iff :
    (∃ results, items.mapM compute = .ok results) ↔ ∀ a ∈ items, ∃ b, compute a = .ok b := by
  induction items with
  | nil => exact ⟨fun _ => by simp, fun _ => ⟨[], rfl⟩⟩
  | cons a items ih =>
      rw [List.forall_mem_cons, ← ih]
      constructor
      · rintro ⟨results, h⟩
        rw [List.mapM_cons] at h
        obtain ⟨b, hb, h⟩ := bind_eq_ok.mp h
        obtain ⟨rest, hrest, _⟩ := bind_eq_ok.mp h
        exact ⟨⟨b, hb⟩, rest, hrest⟩
      · rintro ⟨⟨b, hb⟩, rest, hrest⟩
        exact ⟨b :: rest, by rw [List.mapM_cons, hb, hrest]; rfl⟩

end Except
