import Mathlib

/-!
# Lanes

A list of tagged items is an interleaving of its lanes, the items with each tag in
their order.
-/

namespace Lanes

variable {τ α β : Type*} [DecidableEq τ]

/-- The items with a tag. -/
def lane (tag : τ) (l : List (τ × α)) : List α := (l.filter fun entry => entry.1 = tag).map Prod.snd

variable {tag other : τ} {l l' : List (τ × α)} {a : α}

@[simp] theorem lane_nil : lane tag ([] : List (τ × α)) = [] := rfl

@[simp] theorem lane_append : lane tag (l ++ l') = lane tag l ++ lane tag l' := by
  rw [lane, List.filter_append, List.map_append]
  rfl

@[simp] theorem lane_cons_self : lane tag ((tag, a) :: l) = a :: lane tag l := by
  rw [lane, List.filter_cons_of_pos (by simp), List.map_cons]
  rfl

theorem lane_cons_of_ne (h : other ≠ tag) : lane tag ((other, a) :: l) = lane tag l := by
  rw [lane, List.filter_cons_of_neg (by simpa using h)]
  rfl

theorem mem_lane : a ∈ lane tag l ↔ (tag, a) ∈ l := by
  simp [lane]

theorem lane_filter (p : α → Bool) :
    lane tag (l.filter fun entry => p entry.2) = (lane tag l).filter p := by
  rw [lane, lane, List.filter_filter, List.filter_map, List.filter_filter]
  congr 2
  funext entry
  exact Bool.and_comm _ _

/-- All items are in one lane. -/
theorem map_snd_eq_lane (tag : τ) (h : ∀ other ≠ tag, lane other l = []) :
    l.map Prod.snd = lane tag l := by
  induction l with
  | nil => rfl
  | cons entry l ih =>
      obtain ⟨t, a⟩ := entry
      obtain rfl : t = tag := by
        by_contra hne
        have hcons := h t hne
        rw [lane_cons_self] at hcons
        exact List.cons_ne_nil _ _ hcons
      rw [List.map_cons, lane_cons_self, ih]
      intro other hother
      rw [← h other hother, lane_cons_of_ne (Ne.symm hother)]

/-- Tagged items moved to a pair of a tag and another. -/
theorem lane_map_prod {σ : Type*} [DecidableEq σ] (s : σ) :
    lane (s, tag) (l.map fun entry => ((s, entry.1), entry.2)) = lane tag l := by
  induction l with
  | nil => rfl
  | cons entry l ih =>
      obtain ⟨t, a⟩ := entry
      rw [List.map_cons]
      by_cases h : t = tag
      · rw [h, lane_cons_self, lane_cons_self, ih]
      · rw [lane_cons_of_ne h, lane_cons_of_ne fun heq => h (Prod.ext_iff.mp heq).2, ih]

theorem lane_map_prod_of_ne {σ : Type*} [DecidableEq σ] {s s' : σ} (h : s' ≠ s) :
    lane (s, tag) (l.map fun entry => ((s', entry.1), entry.2)) = [] := by
  induction l with
  | nil => rfl
  | cons entry l ih =>
      rw [List.map_cons, lane_cons_of_ne fun heq => h (Prod.ext_iff.mp heq).1, ih]

/-- Lists with the same lanes have the same items. -/
theorem perm_of_lane [DecidableEq α] (h : ∀ tag, lane tag l = lane tag l') : l.Perm l' := by
  have hcount : ∀ (l : List (τ × α)) (tag : τ) (a : α),
      (lane tag l).count a = l.count (tag, a) := by
    intro l tag a
    rw [lane, List.count, List.countP_map, List.countP_filter, List.count]
    apply List.countP_congr
    intro entry _
    simp [Prod.ext_iff, and_comm]
  rw [List.perm_iff_count]
  rintro ⟨tag, a⟩
  rw [← hcount, ← hcount, h]

end Lanes
