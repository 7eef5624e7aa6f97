import Mathlib

/-!
# Counting in lists
-/

variable {α β : Type*}

namespace List

/-- If each element contributes at most one copy, the copies are counted by
the elements that contribute. -/
theorem count_flatMap_eq_countP [DecidableEq β] {l : List α} {f : α → List β} {b : β}
    {p : α → Prop} [DecidablePred p]
    (h : ∀ a ∈ l, (f a).count b = if p a then 1 else 0) : (l.flatMap f).count b = l.countP p := by
  induction l with
  | nil => rfl
  | cons a l ih =>
      rw [flatMap_cons, count_append, h a mem_cons_self,
        ih fun x hx => h x (mem_cons_of_mem a hx), countP_cons, add_comm]
      simp

/-- What satisfies `p` satisfies `q` or `r`. -/
theorem countP_le_add {l : List α} {p q r : α → Prop} [DecidablePred p] [DecidablePred q]
    [DecidablePred r] (h : ∀ a ∈ l, p a → q a ∨ r a) : l.countP p ≤ l.countP q + l.countP r := by
  induction l with
  | nil => simp
  | cons a l ih =>
      have hle := ih fun x hx => h x (mem_cons_of_mem a hx)
      have ha := h a mem_cons_self
      simp only [countP_cons, decide_eq_true_eq]
      split <;> split <;> split <;> simp_all <;> omega

theorem eq_of_countP_le_one {l : List α} {p : α → Prop} [DecidablePred p] (h : l.countP p ≤ 1)
    {a b : α} (ha : a ∈ l) (hb : b ∈ l) (hpa : p a) (hpb : p b) : a = b := by
  rw [countP_eq_length_filter] at h
  have ha' : a ∈ l.filter p := mem_filter.mpr ⟨ha, decide_eq_true hpa⟩
  have hb' : b ∈ l.filter p := mem_filter.mpr ⟨hb, decide_eq_true hpb⟩
  obtain ⟨c, hc⟩ := length_eq_one_iff.mp (le_antisymm h (length_pos_of_mem ha'))
  simp only [hc, mem_singleton] at ha' hb'
  exact ha'.trans hb'.symm

/-- One element with `p`, and one copy of it. -/
theorem countP_le_one [BEq α] [LawfulBEq α] {l : List α} {p : α → Prop} [DecidablePred p]
    (hcount : ∀ a ∈ l, p a → l.count a ≤ 1) (hunique : ∀ a ∈ l, ∀ b ∈ l, p a → p b → a = b) :
    l.countP p ≤ 1 := by
  by_cases hany : ∃ a ∈ l, p a
  · obtain ⟨a, ha, hpa⟩ := hany
    refine le_trans (countP_mono_left fun b hb hpb => ?_) (hcount a ha hpa)
    exact beq_iff_eq.mpr (hunique b hb a ha (of_decide_eq_true hpb) hpa)
  · rw [countP_eq_zero.mpr fun a ha hpa => hany ⟨a, ha, of_decide_eq_true hpa⟩]
    exact zero_le_one

/-- What has `p` is counted by its keys, if no key is used twice. -/
theorem countP_le_card [DecidableEq β] {l : List α} {p : α → Prop} [DecidablePred p] (key : α → β)
    (keys : Finset β) (hkeys : ∀ a ∈ l, p a → key a ∈ keys)
    (honce : ∀ b, l.countP (fun a => key a = b ∧ p a) ≤ 1) : l.countP p ≤ keys.card := by
  have hnodup : ((l.filter p).map key).Nodup := by
    refine nodup_iff_count_le_one.mpr fun b => ?_
    rw [count, countP_map, countP_filter]
    refine le_trans (countP_mono_left fun a _ ha => ?_) (honce b)
    simpa using ha
  have hsubset : ((l.filter p).map key).toFinset ⊆ keys := by
    intro b hb
    obtain ⟨a, ha, rfl⟩ := mem_map.mp (mem_toFinset.mp hb)
    obtain ⟨hmem, hp⟩ := mem_filter.mp ha
    exact hkeys a hmem (of_decide_eq_true hp)
  calc l.countP p = ((l.filter p).map key).length := by rw [length_map, countP_eq_length_filter]
    _ = ((l.filter p).map key).toFinset.card := (toFinset_card_of_nodup hnodup).symm
    _ ≤ keys.card := Finset.card_le_card hsubset

/-- Count what has `p`, and add up a weight over it. -/
theorem countP_add_sum_ite (l : List α) (p : α → Prop) [DecidablePred p] (weight : α → ℕ) :
    l.countP p + (l.map fun a => if p a then weight a else 0).sum =
      (l.map fun a => if p a then 1 + weight a else 0).sum := by
  induction l with
  | nil => rfl
  | cons a l ih =>
      simp only [countP_cons, map_cons, sum_cons, decide_eq_true_eq, ← ih]
      split <;> omega

/-- A list of fewer than `m` numbers misses one of the first `m`. -/
theorem exists_lt_notMem {l : List ℕ} {m : ℕ} (h : l.length < m) : ∃ a < m, a ∉ l := by
  by_contra! hall
  have hsubset : range m ⊆ l := fun a ha => hall a (mem_range.mp ha)
  have hle := (nodup_range.subperm hsubset).length_le
  rw [length_range] at hle
  omega

end List
