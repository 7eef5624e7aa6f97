import Mathlib

/-!
# Arranging items by their keys

A map gives its items back in an order of its own. When items are told apart by
their keys, such an order of keys is an order of items. One order of keys puts
those of a given list first, as they stand there.
-/

namespace Arrange

variable {α β κ : Type*} [DecidableEq κ]

/-- The items in the order that `order` gives their keys. -/
def arrange (key : α → κ) (order : List κ → List κ) (items : List α) : List α :=
  (order (items.map key)).filterMap fun k => items.find? fun item => key item = k

section Keys

variable {key : α → κ} {order : List κ → List κ} {items items' : List α}

theorem mem_of_mem_arrange {item : α} (h : item ∈ arrange key order items) : item ∈ items := by
  obtain ⟨k, _, hfind⟩ := List.mem_filterMap.mp h
  exact List.mem_of_find?_eq_some hfind

/-- Every key finds an item that has it. -/
theorem map_filterMap_find {keys : List κ} (h : ∀ k ∈ keys, k ∈ items.map key) :
    (keys.filterMap fun k => items.find? fun item => key item = k).map key = keys := by
  induction keys with
  | nil => rfl
  | cons k keys ih =>
      obtain ⟨hk, hkeys⟩ := List.forall_mem_cons.mp h
      obtain ⟨item, hitem, heq⟩ := List.mem_map.mp hk
      obtain ⟨found, hfound⟩ : ∃ found, (items.find? fun item => key item = k) = some found :=
        Option.isSome_iff_exists.mp (List.find?_isSome.mpr ⟨item, hitem, by simpa using heq⟩)
      rw [List.filterMap_cons, hfound, List.map_cons, ih hkeys]
      exact congrArg (· :: keys) (by simpa using List.find?_some hfound)

theorem map_arrange (hperm : (order (items.map key)).Perm (items.map key)) :
    (arrange key order items).map key = order (items.map key) :=
  map_filterMap_find fun _ hk => hperm.subset hk

theorem arrange_perm (hperm : (order (items.map key)).Perm (items.map key))
    (hnodup : (items.map key).Nodup) : (arrange key order items).Perm items := by
  have hkeys := map_arrange hperm
  have harranged : (arrange key order items).Nodup :=
    List.Nodup.of_map key (hkeys ▸ hperm.nodup_iff.mpr hnodup)
  rw [List.perm_ext_iff_of_nodup harranged (hnodup.of_map key)]
  intro item
  refine ⟨mem_of_mem_arrange, fun hitem => ?_⟩
  have hmem : key item ∈ (arrange key order items).map key := by
    rw [hkeys]
    exact hperm.symm.subset (List.mem_map_of_mem hitem)
  obtain ⟨found, hfound, heq⟩ := List.mem_map.mp hmem
  rwa [← List.inj_on_of_nodup_map hnodup (mem_of_mem_arrange hfound) hitem heq]

omit [DecidableEq κ] in
/-- Items with the same keys are the same. -/
theorem eq_of_map_key_eq (hnodup : (items.map key).Nodup) {left right : List α}
    (hleft : ∀ item ∈ left, item ∈ items) (hright : ∀ item ∈ right, item ∈ items)
    (h : left.map key = right.map key) : left = right := by
  induction left generalizing right with
  | nil => exact (List.map_eq_nil_iff.mp h.symm).symm
  | cons a left ih =>
      obtain ⟨b, rest, rfl, hb, hrest⟩ := List.map_eq_cons_iff.mp h.symm
      obtain ⟨ha, hleft⟩ := List.forall_mem_cons.mp hleft
      obtain ⟨hbmem, hright⟩ := List.forall_mem_cons.mp hright
      rw [List.inj_on_of_nodup_map hnodup ha hbmem hb.symm, ih hleft hright hrest.symm]

/-- The arrangement is known from the order of the keys. -/
theorem arrange_eq (hperm : (order (items.map key)).Perm (items.map key))
    (hnodup : (items.map key).Nodup) (hitems : ∀ item ∈ items', item ∈ items)
    (h : order (items.map key) = items'.map key) : arrange key order items = items' :=
  eq_of_map_key_eq hnodup (fun _ => mem_of_mem_arrange) hitems ((map_arrange hperm).trans h)

theorem arrange_singleton (hperm : ∀ keys, (order keys).Perm keys) (item : α) :
    arrange key order [item] = [item] :=
  List.perm_singleton.mp (arrange_perm (hperm _) (by simp))

/-- The first item stays first if its key does. -/
theorem head_arrange {first : α} (h : items.head? = some first)
    (horder : (order (items.map key)).head? = some (key first)) :
    (arrange key order items).head? = some first := by
  obtain ⟨keys, hkeys⟩ := List.head?_eq_some_iff.mp horder
  obtain ⟨rest, hrest⟩ := List.head?_eq_some_iff.mp h
  have hfind : (items.find? fun item => key item = key first) = some first := by
    rw [hrest, List.find?_cons_of_pos (by simp)]
  rw [arrange, hkeys, List.filterMap_cons, hfind, List.head?_cons]

/-- The order of a map may depend on its keys only. -/
theorem arrange_congr (hperm : ∀ keys, (order keys).Perm keys)
    (hkeys : ∀ keys keys', keys.Perm keys' → order keys = order keys')
    (hnodup : (items.map key).Nodup) (h : items.Perm items') :
    arrange key order items = arrange key order items' := by
  have hperm' := hperm (items'.map key)
  refine arrange_eq (hperm _) hnodup (fun item hitem => h.symm.subset (mem_of_mem_arrange hitem)) ?_
  rw [map_arrange hperm']
  exact hkeys _ _ (h.map key)

theorem arrange_map (g : β → α) (items : List β) :
    arrange key order (items.map g) = (arrange (fun b => key (g b)) order items).map g := by
  simp only [arrange, List.map_map, List.map_filterMap, List.find?_map, Function.comp_def]

end Keys

/-! ## Keys by rank -/

section Rank

variable [LinearOrder κ] (ranked : List κ)

/-- Keys of the list come first, as they stand there, all others by size. -/
def RankLe (a b : κ) : Prop :=
  toLex (ranked.idxOf a, a) ≤ toLex (ranked.idxOf b, b)

instance : DecidableRel (RankLe ranked) := fun _ _ => inferInstanceAs (Decidable (_ ≤ _))

instance : IsTrans κ (RankLe ranked) := ⟨fun _ _ _ hab hbc => le_trans hab hbc⟩

instance : Std.Total (RankLe ranked) := ⟨fun _ _ => le_total _ _⟩

def byRank (keys : List κ) : List κ := keys.insertionSort (RankLe ranked)

theorem byRank_perm (keys : List κ) : (byRank ranked keys).Perm keys :=
  List.perm_insertionSort _ keys

theorem rankLe_antisymm (a b : κ) (hab : RankLe ranked a b) (hba : RankLe ranked b a) : a = b :=
  (Prod.mk.inj (toLex.injective (le_antisymm hab hba))).2

/-- A sorted list is what its permutations are sorted to. -/
theorem byRank_eq {keys sorted : List κ} (h : keys.Perm sorted)
    (hsorted : sorted.Pairwise (RankLe ranked)) : byRank ranked keys = sorted := by
  refine ((byRank_perm ranked keys).trans h).eq_of_pairwise ?_ ?_ hsorted
  · intro a b _ _
    exact rankLe_antisymm ranked a b
  · exact List.pairwise_insertionSort _ keys

theorem byRank_congr {keys keys' : List κ} (h : keys.Perm keys') :
    byRank ranked keys = byRank ranked keys' :=
  byRank_eq ranked (h.trans (byRank_perm ranked keys').symm) (List.pairwise_insertionSort _ keys')

/-- The first key of the list always comes first. -/
theorem head_byRank {key : κ} {keys : List κ} (h : key ∈ keys) :
    (byRank (key :: ranked) keys).head? = some key := by
  have hmem := (byRank_perm (key :: ranked) keys).symm.subset h
  cases hsorted : byRank (key :: ranked) keys with
  | nil => simp [hsorted] at hmem
  | cons first rest =>
      have hpairwise : (first :: rest).Pairwise (RankLe (key :: ranked)) :=
        hsorted ▸ List.pairwise_insertionSort _ keys
      rw [hsorted] at hmem
      rcases List.mem_cons.mp hmem with rfl | hrest
      · rfl
      · have hle := (List.pairwise_cons.mp hpairwise).1 key hrest
        by_contra hne
        have hother : key ≠ first := fun heq => hne (heq ▸ rfl)
        have hkey : RankLe (key :: ranked) key first := by
          rw [RankLe, List.idxOf_cons_self, List.idxOf_cons_ne _ hother,
            Prod.Lex.toLex_le_toLex]
          exact Or.inl (Nat.succ_pos _)
        exact hother (rankLe_antisymm _ _ _ hkey hle)

/-- Part of the ranked list comes out as it stands there. -/
theorem byRank_of_sublist {keys part : List κ} (hnodup : ranked.Nodup) (hpart : part.Sublist ranked)
    (h : keys.Perm part) : byRank ranked keys = part := by
  refine byRank_eq ranked h (List.Pairwise.sublist hpart ?_)
  rw [List.pairwise_iff_getElem]
  intro i j hi hj hij
  rw [RankLe, hnodup.idxOf_getElem, hnodup.idxOf_getElem, Prod.Lex.toLex_le_toLex]
  exact Or.inl hij

/-- Items whose keys are part of the ranked list are arranged as that part is. -/
theorem arrange_byRank {key : α → κ} {items part : List α} (hnodup : ranked.Nodup)
    (hpart : (part.map key).Sublist ranked) (h : items.Perm part) :
    arrange key (byRank ranked) items = part := by
  have hkeys : (items.map key).Nodup :=
    (h.map key).nodup_iff.mpr (hnodup.sublist hpart)
  exact arrange_eq (byRank_perm ranked _) hkeys (fun _ hitem => h.symm.subset hitem)
    (byRank_of_sublist ranked hnodup hpart (h.map key))

end Rank

end Arrange
