import Hgfrr.Topology.Enumeration

/-!
# The routing table of gossip

Neighbours are drawn by number, and looked for by converting the id of every node back
to a number. The table is complete exactly if the conversion gives every node its own
number.
-/

namespace Hgfrr

/-! ## Drawing numbers -/

section Drawing

variable {total missing : ℕ} {selfOrder : ℤ} {neighborIds drawn : List ℤ}

/-- Different numbers of nodes, none of them the own one. -/
structure Neighbours (total : ℕ) (selfOrder : ℤ) (neighborIds : List ℤ) : Prop where
  nodup : neighborIds.Nodup
  inRange : ∀ id ∈ neighborIds, 0 ≤ id ∧ id < total
  not_self : selfOrder ∉ neighborIds

theorem Neighbours.append (h : Neighbours total selfOrder neighborIds) {id : ℤ} (hpos : 0 ≤ id)
    (hlt : id < total) (hnew : id ∉ neighborIds) (hself : id ≠ selfOrder) :
    Neighbours total selfOrder (neighborIds ++ [id]) where
  nodup := by
    rw [List.nodup_append]
    refine ⟨h.nodup, List.nodup_singleton id, fun a ha b hb => ?_⟩
    rintro rfl
    exact hnew (List.mem_singleton.mp hb ▸ ha)
  inRange := by
    intro other hother
    rcases List.mem_append.mp hother with hmem | hmem
    · exact h.inRange other hmem
    · obtain rfl := List.mem_singleton.mp hmem
      exact ⟨hpos, hlt⟩
  not_self := by
    rw [List.mem_append, List.mem_singleton, not_or]
    exact ⟨h.not_self, hself.symm⟩

/-- A draw that ends has added as many numbers as were missing. -/
theorem Neighbours.of_draw (h : Neighbours total selfOrder neighborIds) (htotal : 0 < total)
    (draws : List ℕ)
    (hdraw : drawNeighbours total selfOrder draws missing neighborIds = .ok drawn) :
    Neighbours total selfOrder drawn ∧ drawn.length = neighborIds.length + missing ∧
      ∀ id ∈ neighborIds, id ∈ drawn := by
  induction draws generalizing missing neighborIds with
  | nil =>
      cases missing with
      | zero =>
          obtain rfl := Except.ok.inj hdraw
          exact ⟨h, rfl, fun _ hid => hid⟩
      | succ missing => exact nomatch hdraw
  | cons rand draws ih =>
      cases missing with
      | zero =>
          obtain rfl := Except.ok.inj hdraw
          exact ⟨h, rfl, fun _ hid => hid⟩
      | succ missing =>
          rw [drawNeighbours] at hdraw
          split at hdraw
          next hnew =>
            have hlt : ((rand % total : ℕ) : ℤ) < total := by
              exact_mod_cast Nat.mod_lt rand htotal
            obtain ⟨hall, hlength, hsub⟩ :=
              ih (h.append (Int.natCast_nonneg _) hlt hnew.1 hnew.2) hdraw
            refine ⟨hall, ?_, fun id hid => hsub id (by simp [hid])⟩
            rw [hlength, List.length_append, List.length_singleton]
            omega
          next => exact ih h hdraw

/-- New numbers may be drawn one after the other. -/
theorem drawNeighbours_of_fresh {fresh : List ℕ} (hnodup : fresh.Nodup)
    (hlt : ∀ n ∈ fresh, n < total)
    (hnew : ∀ n ∈ fresh, (n : ℤ) ∉ neighborIds ∧ (n : ℤ) ≠ selfOrder) :
    drawNeighbours total selfOrder fresh fresh.length neighborIds =
      .ok (neighborIds ++ fresh.map (Nat.cast : ℕ → ℤ)) := by
  induction fresh generalizing neighborIds with
  | nil => simp [drawNeighbours]
  | cons n fresh ih =>
      obtain ⟨hnot, hnodup⟩ := List.nodup_cons.mp hnodup
      obtain ⟨hn, hlt⟩ := List.forall_mem_cons.mp hlt
      obtain ⟨hfirst, hnew⟩ := List.forall_mem_cons.mp hnew
      rw [List.length_cons, drawNeighbours, Nat.mod_eq_of_lt hn, if_pos hfirst,
        ih hnodup hlt fun other hother => ⟨?_, (hnew other hother).2⟩]
      · simp
      · rw [List.mem_append, List.mem_singleton, not_or, Nat.cast_inj]
        exact ⟨(hnew other hother).1, fun heq => hnot (heq ▸ hother)⟩

end Drawing

/-! ## What the loops leave -/

/-- The numbers of the nodes that are kept, first those that go to the front. `order` is
the number that a node is taken to have. -/
def keptNumbers (order : ℕ → ℕ) (total m : ℕ) (neighborIds : List ℤ) : List ℕ :=
  let kept := (List.range total).filter fun k => (order k : ℤ) ∈ neighborIds ∧ k ≠ m
  (kept.filter fun k => order k = order m + 1).reverse ++
    kept.filter fun k => ¬order k = order m + 1

section Kept

variable {order : ℕ → ℕ} {total m k : ℕ} {neighborIds : List ℤ}

theorem keptNumbers_perm : (keptNumbers order total m neighborIds).Perm
    ((List.range total).filter fun k => (order k : ℤ) ∈ neighborIds ∧ k ≠ m) := by
  refine (List.Perm.append_right _ (List.reverse_perm _)).trans ?_
  simpa only [decide_not] using List.filter_append_perm (fun k => decide (order k = order m + 1)) _

theorem mem_keptNumbers : k ∈ keptNumbers order total m neighborIds ↔
    k < total ∧ (order k : ℤ) ∈ neighborIds ∧ k ≠ m := by
  rw [keptNumbers_perm.mem_iff]
  simp

theorem nodup_keptNumbers : (keptNumbers order total m neighborIds).Nodup :=
  keptNumbers_perm.nodup_iff.mpr (List.nodup_range.filter _)

/-- A node that goes to the front leads the table. -/
theorem exists_head_keptNumbers (hk : k < total) (hmem : (order k : ℤ) ∈ neighborIds) (hne : k ≠ m)
    (hnext : order k = order m + 1) : ∃ first < total, order first = order m + 1 ∧
      (keptNumbers order total m neighborIds).head? = some first := by
  have hin : k ∈ (((List.range total).filter fun k => (order k : ℤ) ∈ neighborIds ∧ k ≠ m).filter
      fun k => order k = order m + 1).reverse := by
    simp only [List.mem_reverse, List.mem_filter, List.mem_range, decide_eq_true_eq]
    exact ⟨⟨hk, hmem, hne⟩, hnext⟩
  obtain ⟨first, rest, hfront⟩ := List.exists_cons_of_ne_nil (List.ne_nil_of_mem hin)
  have hfirst : first ∈ first :: rest := List.mem_cons_self
  rw [← hfront] at hfirst
  simp only [List.mem_reverse, List.mem_filter, List.mem_range, decide_eq_true_eq] at hfirst
  refine ⟨first, hfirst.1.1, hfirst.2, ?_⟩
  rw [keptNumbers, hfront]
  rfl

/-- Without one, the first node leads the table if it is kept. -/
theorem head_keptNumbers_zero (htotal : 0 < total) (hmem : (order 0 : ℤ) ∈ neighborIds)
    (hne : 0 ≠ m) (hnone : ∀ other < total, order other ≠ order m + 1) :
    (keptNumbers order total m neighborIds).head? = some 0 := by
  have hfront : (((List.range total).filter fun k => (order k : ℤ) ∈ neighborIds ∧ k ≠ m).filter
      fun k => order k = order m + 1) = [] := by
    rw [List.filter_eq_nil_iff]
    intro other hother
    simpa using hnone other (List.mem_range.mp (List.mem_of_mem_filter hother))
  obtain ⟨n, rfl⟩ := Nat.exists_eq_add_of_lt htotal
  rw [keptNumbers, hfront, List.reverse_nil, List.nil_append, zero_add, List.range_succ_eq_map,
    List.filter_cons_of_pos (by simpa using ⟨hmem, hne⟩),
    List.filter_cons_of_pos (by simpa using hnone 0 htotal)]
  rfl

end Kept

/-! ## When the table is complete -/

/-- As many nodes as the table is to have, the successor first. -/
def KeptRight (order : ℕ → ℕ) (total m : ℕ) (neighborIds : List ℤ) : Prop :=
  (keptNumbers order total m neighborIds).length = tableSizeEth + 1 ∧
    (keptNumbers order total m neighborIds).head? = some ((m + 1) % total)

section Complete

variable {order : ℕ → ℕ} {total m : ℕ} {neighborIds : List ℤ}

theorem succ_mod_ne {n : ℕ} (hn : n < total) (htotal : 1 < total) : (n + 1) % total ≠ n := by
  rcases Nat.lt_or_ge (n + 1) total with hlt | hge
  · rw [Nat.mod_eq_of_lt hlt]
    omega
  · have hwrap : n + 1 = total := by omega
    rw [hwrap, Nat.mod_self]
    omega

theorem Neighbours.natCast {selfOrder : ℤ} (h : Neighbours total selfOrder neighborIds) {id : ℤ}
    (hid : id ∈ neighborIds) : ∃ n < total, (n : ℤ) = id := by
  obtain ⟨hpos, hlt⟩ := h.inRange id hid
  exact ⟨id.toNat, by omega, Int.toNat_of_nonneg hpos⟩

/-- Where every node has its own number, the nodes kept are those drawn. -/
theorem keptRight_of_order (horder : ∀ k < total, order k = k) (hm : m < total)
    (hsize : 1 < total) (h : Neighbours total m neighborIds)
    (hlength : neighborIds.length = tableSizeEth + 1)
    (hnext : (((m + 1) % total : ℕ) : ℤ) ∈ neighborIds) : KeptRight order total m neighborIds := by
  refine ⟨?_, ?_⟩
  · have hperm : ((keptNumbers order total m neighborIds).map (Nat.cast : ℕ → ℤ)).Perm
      neighborIds := by
      rw [List.perm_ext_iff_of_nodup (nodup_keptNumbers.map Nat.cast_injective) h.nodup]
      intro id
      rw [List.mem_map]
      constructor
      · rintro ⟨k, hk, rfl⟩
        obtain ⟨hlt, hmem, _⟩ := mem_keptNumbers.mp hk
        rwa [horder k hlt] at hmem
      · intro hid
        obtain ⟨k, hk, rfl⟩ := h.natCast hid
        refine ⟨k, mem_keptNumbers.mpr ⟨hk, by rwa [horder k hk], ?_⟩, rfl⟩
        rintro rfl
        exact h.not_self hid
    rw [← hlength, ← hperm.length_eq, List.length_map]
  · rcases Nat.lt_or_ge (m + 1) total with hlt | hge
    · rw [Nat.mod_eq_of_lt hlt] at hnext ⊢
      have hmem : (order (m + 1) : ℤ) ∈ neighborIds := by rwa [horder _ hlt]
      obtain ⟨first, hfirst, heq, hhead⟩ := exists_head_keptNumbers (m := m) hlt hmem (by omega)
        (by rw [horder _ hlt, horder m hm])
      rw [horder first hfirst, horder m hm] at heq
      rw [hhead, heq]
    · obtain rfl : m + 1 = total := by omega
      rw [Nat.mod_self] at hnext ⊢
      refine head_keptNumbers_zero (by omega) (by rwa [horder 0 (by omega)]) (by omega) ?_
      intro other hother
      rw [horder other hother, horder m hm]
      omega

/-- Numbers that avoid some others, when there are enough. -/
theorem exists_fresh (total : ℕ) (bad : Finset ℕ) (count : ℕ) (h : bad.card + count ≤ total) :
    ∃ fresh : List ℕ, fresh.Nodup ∧ fresh.length = count ∧ ∀ n ∈ fresh, n < total ∧ n ∉ bad := by
  have hcard := Finset.le_card_sdiff bad (Finset.range total)
  rw [Finset.card_range] at hcard
  refine ⟨(Finset.range total \ bad).toList.take count,
    (Finset.nodup_toList _).sublist (List.take_sublist _ _), ?_, fun n hn => ?_⟩
  · rw [List.length_take, Finset.length_toList]
    omega
  · simpa using List.mem_of_mem_take hn

/-- The table is complete for every node and all neighbours that may be drawn. -/
def AlwaysRight (order : ℕ → ℕ) (total : ℕ) : Prop :=
  ∀ m < total, ∀ fresh : List ℕ, fresh.Nodup → fresh.length = tableSizeEth →
    (∀ n ∈ fresh, n < total ∧ n ≠ (order m + 1) % total ∧ n ≠ order m) →
    KeptRight order total m ((order m + 1) % total :: fresh |>.map Nat.cast)

/-- With more nodes than a table has places, the next number can be left out. -/
theorem order_succ_of_many (h : AlwaysRight order total) (hmany : tableSizeEth + 3 ≤ total)
    (hm : order m = m) (hsucc : m + 1 < total) : order (m + 1) = m + 1 := by
  by_contra hne
  have hbad : ({m, m + 1, order (m + 1)} : Finset ℕ).card ≤ 3 := Finset.card_le_three
  obtain ⟨fresh, hnodup, hlength, hfresh⟩ :=
    exists_fresh total {m, m + 1, order (m + 1)} tableSizeEth (by omega)
  have hright := (h m (by omega) fresh hnodup hlength fun n hn => by
    obtain ⟨hlt, hbad⟩ := hfresh n hn
    simp only [Finset.mem_insert, Finset.mem_singleton, not_or] at hbad
    rw [hm, Nat.mod_eq_of_lt hsucc]
    exact ⟨hlt, hbad.2.1, hbad.1⟩).2
  rw [hm, Nat.mod_eq_of_lt hsucc] at hright
  have hmem := (mem_keptNumbers.mp (List.mem_of_mem_head? hright)).2.1
  simp only [List.map_cons, List.mem_cons, Nat.cast_inj, List.mem_map, exists_eq_right] at hmem
  rcases hmem with heq | hmem
  · exact hne heq
  · exact (hfresh _ hmem).2 (by simp)

/-- With as many nodes as places, all numbers but the own one are drawn, and all other
nodes are kept. -/
theorem kept_of_few (h : AlwaysRight order total) (hfew : total = tableSizeEth + 2)
    (hm : m < total) (hself : order m < total) :
    (∀ k < total, k ≠ m → order k < total ∧ order k ≠ order m) ∧
      ((∃ k < total, order k = order m + 1) → order ((m + 1) % total) = order m + 1) := by
  have hnext : (order m + 1) % total < total := Nat.mod_lt _ (by omega)
  have hdiffer : (order m + 1) % total ≠ order m := succ_mod_ne hself (by omega)
  have hcard : (Finset.range total \ {(order m + 1) % total, order m}).card = tableSizeEth := by
    rw [Finset.card_sdiff_of_subset, Finset.card_range, Finset.card_pair hdiffer]
    · omega
    · intro n hn
      simp only [Finset.mem_insert, Finset.mem_singleton] at hn
      rcases hn with rfl | rfl <;> simpa
  obtain ⟨hlength, hhead⟩ := h m hm (Finset.range total \ {(order m + 1) % total, order m}).toList
    (Finset.nodup_toList _) (by rw [Finset.length_toList, hcard]) fun n hn => by simpa using hn
  set neighborIds := (((order m + 1) % total) ::
    (Finset.range total \ {(order m + 1) % total, order m}).toList).map (Nat.cast : ℕ → ℤ) with hids
  have hmem (n : ℕ) : (n : ℤ) ∈ neighborIds ↔ n < total ∧ n ≠ order m := by
    rw [hids, List.mem_map]
    simp only [Nat.cast_inj, exists_eq_right, List.mem_cons, Finset.mem_toList, Finset.mem_sdiff,
      Finset.mem_range, Finset.mem_insert, Finset.mem_singleton, not_or]
    constructor
    · rintro (rfl | ⟨hlt, _, hne⟩)
      · exact ⟨hnext, hdiffer⟩
      · exact ⟨hlt, hne⟩
    · rintro ⟨hlt, hne⟩
      by_cases heq : n = (order m + 1) % total
      · exact Or.inl heq
      · exact Or.inr ⟨hlt, heq, hne⟩
  -- as many are kept as there are other nodes
  have hall : ((List.range total).filter fun k => (order k : ℤ) ∈ neighborIds ∧ k ≠ m) =
      (List.range total).filter fun k => k ≠ m := by
    refine List.Sublist.eq_of_length (List.monotone_filter_right _ fun k hk => ?_) ?_
    · simp only [decide_eq_true_eq] at hk ⊢
      exact hk.2
    · have herase : ((List.range total).filter fun k => k ≠ m) = (List.range total).erase m := by
        rw [List.nodup_range.erase_eq_filter]
        exact List.filter_congr fun k _ => (Bool.eq_iff_iff.mpr (by simp))
      rw [← keptNumbers_perm.length_eq, hlength, herase,
        List.length_erase_of_mem (List.mem_range.mpr hm), List.length_range]
      omega
  have hkept : ∀ k < total, k ≠ m → order k < total ∧ order k ≠ order m := by
    intro k hk hne
    have hin : k ∈ (List.range total).filter fun k => (order k : ℤ) ∈ neighborIds ∧ k ≠ m := by
      rw [hall]
      simpa using ⟨hk, hne⟩
    exact (hmem _).mp (of_decide_eq_true (List.mem_filter.mp hin).2).1
  refine ⟨hkept, fun ⟨k, hk, hsucc⟩ => ?_⟩
  have hne : k ≠ m := by
    rintro rfl
    omega
  obtain ⟨first, _, hfirst, hlead⟩ :=
    exists_head_keptNumbers hk ((hmem _).mpr (hkept k hk hne)) hne hsucc
  rwa [Option.some.inj (hlead.symm.trans hhead)] at hfirst

/-- Complete tables for all nodes need every node to have its own number. -/
theorem AlwaysRight.order_eq (h : AlwaysRight order total) (hsize : tableSizeEth + 2 ≤ total)
    (hzero : order 0 = 0) : ∀ m < total, order m = m := by
  intro m
  induction m with
  | zero => exact fun _ => hzero
  | succ m ih =>
      intro hm
      have hown := ih (by omega)
      rcases hsize.eq_or_lt with hfew | hmany
      · have hlt : ∀ k < total, order k < total := by
          intro k hk
          rcases Nat.eq_zero_or_pos k with rfl | hpos
          · omega
          · exact ((kept_of_few h hfew.symm (by omega) (by omega)).1 k hk hpos.ne').1
        have hinj : Set.InjOn order (Finset.range total) := by
          intro a ha b hb heq
          by_contra hne
          have ha' := Finset.mem_range.mp ha
          have hb' := Finset.mem_range.mp hb
          exact ((kept_of_few h hfew.symm hb' (hlt b hb')).1 a ha' hne).2 heq
        have hsurj : (Finset.range total).image order = Finset.range total := by
          refine Finset.eq_of_subset_of_card_le (fun n hn => ?_) ?_
          · obtain ⟨k, hk, rfl⟩ := Finset.mem_image.mp hn
            exact Finset.mem_range.mpr (hlt k (Finset.mem_range.mp hk))
          · rw [Finset.card_image_of_injOn hinj]
        have himage : m + 1 ∈ (Finset.range total).image order := by
          rw [hsurj]
          exact Finset.mem_range.mpr hm
        obtain ⟨k, hk, hsucc⟩ := Finset.mem_image.mp himage
        have hnext := (kept_of_few h hfew.symm (by omega) (hlt m (by omega))).2
          ⟨k, Finset.mem_range.mp hk, by rw [hsucc, hown]⟩
        rwa [Nat.mod_eq_of_lt hm, hown] at hnext
      · exact order_succ_of_many h hmany hown hm

end Complete

namespace RoutingBuilder

section Loops

variable {builder : RoutingBuilder} {p : Topology} {order : ℕ → ℕ} {idOf : ℕ → Str}
  {node : ℕ → Node} {m : ℕ}

/-- The loop over some nodes puts those kept in front of the table or behind it. -/
theorem foldlM_addNeighbour {numbers : List ℕ}
    (horder : ∀ k ∈ numbers, convertIDStringToInt (idOf k) p = .ok (order k : ℤ))
    (hnode : ∀ k ∈ numbers, builder.mkNode (idOf k) (order k) = some (node k))
    (hself : ∀ k ∈ numbers, idOf k = builder.selfId ↔ k = m) (neighborIds : List ℤ)
    (table : List Node) :
    (numbers.map idOf).foldlM (builder.addNeighbour p (order m) neighborIds) table =
      .ok ((((numbers.filter fun k => (order k : ℤ) ∈ neighborIds ∧ k ≠ m).filter fun k =>
          order k = order m + 1).reverse.map node) ++ table ++
        ((numbers.filter fun k => (order k : ℤ) ∈ neighborIds ∧ k ≠ m).filter fun k =>
          ¬order k = order m + 1).map node) := by
  induction numbers generalizing table with
  | nil => simp [pure, Except.pure]
  | cons k numbers ih =>
      obtain ⟨hk, horder⟩ := List.forall_mem_cons.mp horder
      obtain ⟨hmk, hnode⟩ := List.forall_mem_cons.mp hnode
      obtain ⟨hme, hself⟩ := List.forall_mem_cons.mp hself
      have hfront : ((order k : ℤ) = order m + 1) ↔ order k = order m + 1 := by omega
      rw [List.map_cons, List.foldlM_cons, addNeighbour, hk]
      simp only [bind, Except.bind, hmk, ne_eq, hme, hfront]
      by_cases hkept : (order k : ℤ) ∈ neighborIds ∧ k ≠ m
      · rw [if_pos hkept, List.filter_cons_of_pos (by simpa using hkept)]
        by_cases hnext : order k = order m + 1
        · rw [if_pos hnext]
          refine (ih horder hnode hself _).trans ?_
          simp [hnext]
        · rw [if_neg hnext]
          refine (ih horder hnode hself _).trans ?_
          simp [hnext]
      · rw [if_neg hkept, List.filter_cons_of_neg (by simpa using hkept)]
        exact ih horder hnode hself table

end Loops

end RoutingBuilder

/-! ## Both builders -/

namespace Topology

open MixedRadix

/-- A routing table as it should be for a node: as many other nodes as it has places, all
different, the successor first, and one at every position that a broadcast draws. -/
structure RoutesComplete (p : Topology) (m : ℕ) (table : List Node) : Prop where
  length : table.length = tableSizeEth + 1
  nodup : (table.map Node.id).Nodup
  not_self : convertIDIntToString m p ∉ table.map Node.id
  successor : (table.map Node.id).head? = some (convertIDIntToString ((m + 1) % p.numNodesTotal) p)
  drawn : ∀ id < tableSizeEth, ∃ node, routingTableAt table id = .ok node

/-- Some numbers are drawn for a node in the end. -/
def SelectionEnds (p : Topology) (m : ℕ) (draws : List ℕ) : Prop :=
  ∃ selfOrder neighborIds, convertIDStringToInt (convertIDIntToString m p) p = .ok selfOrder ∧
    RoutingBuilder.neighborIds p draws selfOrder = .ok neighborIds

/-- Both builders give every node a complete table, whenever the selection ends. -/
def RoutingComplete (p : Topology) : Prop :=
  ∀ m < p.numNodesTotal, ∀ draws, p.SelectionEnds m draws →
    (∀ startingPortNumber, ∃ table,
      BaseAppETH.formStructure p startingPortNumber draws (convertIDIntToString m p) = .ok table ∧
        p.RoutesComplete m table) ∧
    ∀ nodeList : NodeList,
      (∀ k < p.numNodesTotal, ∃ address, nodeList.lookup (convertIDIntToString k p) =
        some address) →
      ∃ table, EvalClient.createKadTable p nodeList draws (convertIDIntToString m p) = .ok table ∧
        p.RoutesComplete m table

/-- The number that the id of a node is read as. -/
def numberRead (p : Topology) (k : ℕ) : ℕ := combine p.weights (digits p.radices k)

section Builders

variable {p : Topology} {m : ℕ} {neighborIds : List ℤ} {draws : List ℕ} (hfits : p.Fits)
  (hcontinents : 0 < p.numContinents)
include hfits hcontinents

/-- The table that the loops leave. -/
theorem routingTable_eq (hm : m < p.numNodesTotal) {builder : RoutingBuilder}
    (hself : builder.selfId = convertIDIntToString m p) {node : ℕ → Node}
    (hnode : ∀ k < p.numNodesTotal,
      builder.mkNode (convertIDIntToString k p) (p.numberRead k) = some (node k))
    (hdraw : RoutingBuilder.neighborIds p draws (p.numberRead m) = .ok neighborIds) :
    builder.routingTable p draws =
      .ok ((keptNumbers p.numberRead p.numNodesTotal m neighborIds).map node) := by
  rw [numNodesTotal_eq hcontinents] at hm hnode ⊢
  have hread {k : ℕ} (hk : k < p.numNodes) :
      convertIDStringToInt (convertIDIntToString k p) p = .ok (p.numberRead k : ℤ) :=
    convertID_there_and_back hfits hk
  have hself' : ∀ k ∈ List.range p.numNodes, convertIDIntToString k p = builder.selfId ↔ k = m := by
    intro k hk
    rw [hself]
    exact ⟨convertIDIntToString_inj (List.mem_range.mp hk) hm (hfits.indicesFit _)
      (hfits.indicesFit _), fun heq => by rw [heq]⟩
  have hloop := RoutingBuilder.foldlM_addNeighbour
    (fun k hk => hread (List.mem_range.mp hk)) (fun k hk => hnode k (List.mem_range.mp hk)) hself'
    neighborIds []
  rw [RoutingBuilder.routingTable, hself, hread hm, allIds_eq hfits.nonempty hcontinents]
  refine Except.bind_eq_ok.mpr ⟨_, rfl, Except.bind_eq_ok.mpr ⟨_, hdraw, hloop.trans ?_⟩⟩
  rw [keptNumbers, List.append_nil, List.map_append]

theorem routesComplete_iff {node : ℕ → Node}
    (hid : ∀ k < p.numNodesTotal, (node k).id = convertIDIntToString k p)
    (hm : m < p.numNodesTotal) :
    p.RoutesComplete m ((keptNumbers p.numberRead p.numNodesTotal m neighborIds).map node) ↔
      KeptRight p.numberRead p.numNodesTotal m neighborIds := by
  have htotal : 0 < p.numNodesTotal := by omega
  have hids : ((keptNumbers p.numberRead p.numNodesTotal m neighborIds).map node).map Node.id =
      (keptNumbers p.numberRead p.numNodesTotal m neighborIds).map fun k =>
        convertIDIntToString k p := by
    rw [List.map_map]
    exact List.map_congr_left fun k hk => hid k (mem_keptNumbers.mp hk).1
  have hinj {k l : ℕ} (hk : k < p.numNodesTotal) (hl : l < p.numNodesTotal)
      (heq : convertIDIntToString k p = convertIDIntToString l p) : k = l := by
    rw [numNodesTotal_eq hcontinents] at hk hl
    exact convertIDIntToString_inj hk hl (hfits.indicesFit _) (hfits.indicesFit _) heq
  constructor
  · intro hcomplete
    refine ⟨by simpa using hcomplete.length, ?_⟩
    have hsuccessor := hcomplete.successor
    rw [hids, List.head?_map] at hsuccessor
    obtain ⟨k, hhead, heq⟩ := Option.map_eq_some_iff.mp hsuccessor
    rw [hhead, hinj (mem_keptNumbers.mp (List.mem_of_mem_head? hhead)).1 (Nat.mod_lt _ htotal) heq]
  · rintro ⟨hlength, hhead⟩
    refine ⟨by simpa using hlength, ?_, ?_, ?_, fun id hdrawn => ?_⟩
    · rw [hids]
      refine nodup_keptNumbers.map_on fun k hk l hl heq => ?_
      exact hinj (mem_keptNumbers.mp hk).1 (mem_keptNumbers.mp hl).1 heq
    · rw [hids, List.mem_map]
      rintro ⟨k, hk, heq⟩
      obtain ⟨hlt, _, hne⟩ := mem_keptNumbers.mp hk
      exact hne (hinj hlt hm heq)
    · rw [hids, List.head?_map, hhead]
      rfl
    · have hlt :
          id < ((keptNumbers p.numberRead p.numNodesTotal m neighborIds).map node).length := by
        rw [List.length_map, hlength]
        omega
      exact ⟨_, by rw [routingTableAt, List.getElem?_eq_getElem hlt]⟩

end Builders

theorem neighborIds_eq {p : Topology} (htotal : p.numNodesTotal ≠ 0) (draws : List ℕ) (n : ℕ) :
    RoutingBuilder.neighborIds p draws n = drawNeighbours p.numNodesTotal n draws tableSizeEth
      [(((n + 1) % p.numNodesTotal : ℕ) : ℤ)] := by
  rw [RoutingBuilder.neighborIds, if_neg htotal]
  rfl

theorem numberRead_zero (p : Topology) : p.numberRead 0 = 0 :=
  combine_zeros (digits_zero p.radices)

/-- Tables that are always complete are so for all neighbours that may be drawn. -/
theorem RoutingComplete.alwaysRight {p : Topology} (h : p.RoutingComplete) (hfits : p.Fits)
    (hcontinents : 0 < p.numContinents) (htotal : p.numNodesTotal ≠ 0) :
    AlwaysRight p.numberRead p.numNodesTotal := by
  intro m hm fresh hnodup hlength hfresh
  have hdraw := neighborIds_eq htotal fresh (p.numberRead m)
  rw [← hlength, drawNeighbours_of_fresh hnodup (fun n hn => (hfresh n hn).1)
    fun n hn => ?_] at hdraw
  · have hread : convertIDStringToInt (convertIDIntToString m p) p = .ok (p.numberRead m : ℤ) :=
      convertID_there_and_back hfits (numNodesTotal_eq hcontinents ▸ hm)
    obtain ⟨table, htable, hcomplete⟩ := (h m hm fresh ⟨_, _, hread, hdraw⟩).1 0
    have heq := htable.symm.trans (routingTable_eq hfits hcontinents hm rfl (fun _ _ => rfl) hdraw)
    obtain rfl := Except.ok.inj heq
    exact (routesComplete_iff hfits hcontinents (fun _ _ => rfl) hm).mp hcomplete
  · obtain ⟨_, hnext, hself⟩ := hfresh n hn
    rw [List.mem_singleton, Nat.cast_inj]
    exact ⟨hnext, fun heq => hself (Nat.cast_injective heq)⟩

end Topology

/-- Both builders give every node a complete routing table, whatever numbers are drawn,
exactly if both conversions of ids divide alike. -/
theorem routing_complete_iff (p : Topology) (hfits : p.Fits)
    (hsize : tableSizeEth + 2 ≤ p.numNodesTotal) : p.RoutingComplete ↔ p.DividesAlike := by
  have htotal : p.numNodesTotal ≠ 0 := by omega
  have hcontinents : 0 < p.numContinents := by
    refine Nat.pos_of_ne_zero fun hzero => htotal ?_
    simp [Topology.numNodesTotal, hzero]
  have hread {k : ℕ} (hk : k < p.numNodes) :
      convertIDStringToInt (convertIDIntToString k p) p = .ok (p.numberRead k : ℤ) :=
    Topology.convertID_there_and_back hfits hk
  rw [← Topology.convertID_inverse_iff hfits]
  constructor
  · intro h id hid
    rw [hread hid, (h.alwaysRight hfits hcontinents htotal).order_eq hsize p.numberRead_zero id
      (Topology.numNodesTotal_eq hcontinents ▸ hid)]
  · intro hinverse m hm draws hends
    have horder : ∀ k < p.numNodesTotal, p.numberRead k = k := by
      intro k hk
      rw [Topology.numNodesTotal_eq hcontinents] at hk
      exact Nat.cast_injective (Except.ok.inj ((hread hk).symm.trans (hinverse k hk)))
    obtain ⟨selfOrder, neighborIds, hself, hdraw⟩ := hends
    rw [hread (Topology.numNodesTotal_eq hcontinents ▸ hm)] at hself
    obtain rfl := Except.ok.inj hself
    have hloop := hdraw
    rw [Topology.neighborIds_eq htotal, horder m hm] at hloop
    have hnext : (m + 1) % p.numNodesTotal < p.numNodesTotal := Nat.mod_lt _ (by omega)
    have hdiffer : (m + 1) % p.numNodesTotal ≠ m := succ_mod_ne hm (by omega)
    have hstart : Neighbours p.numNodesTotal m [(((m + 1) % p.numNodesTotal : ℕ) : ℤ)] := by
      refine ⟨List.nodup_singleton _, fun id hid => ?_, fun hmem => ?_⟩
      · obtain rfl := List.mem_singleton.mp hid
        exact ⟨Int.natCast_nonneg _, by exact_mod_cast hnext⟩
      · exact hdiffer (Nat.cast_injective (List.mem_singleton.mp hmem)).symm
    obtain ⟨hneighbours, hlength, hsub⟩ := hstart.of_draw (by omega) draws hloop
    have hright := keptRight_of_order horder hm (by omega) hneighbours
      (by rw [hlength, List.length_singleton, Nat.add_comm]) (hsub _ (List.mem_singleton_self _))
    refine ⟨fun startingPortNumber => ?_, fun nodeList hlist => ?_⟩
    · exact ⟨_, Topology.routingTable_eq hfits hcontinents hm rfl (fun _ _ => rfl) hdraw,
        (Topology.routesComplete_iff hfits hcontinents (fun _ _ => rfl) hm).mpr hright⟩
    · have hnode : ∀ k < p.numNodesTotal, ((nodeList.lookup (convertIDIntToString k p)).map
          fun address => (⟨convertIDIntToString k p, address.1, address.2⟩ : Node)) =
          some ⟨convertIDIntToString k p,
            ((nodeList.lookup (convertIDIntToString k p)).getD ([], 0)).1,
            ((nodeList.lookup (convertIDIntToString k p)).getD ([], 0)).2⟩ := by
        intro k hk
        obtain ⟨address, haddress⟩ := hlist k hk
        rw [haddress]
        rfl
      exact ⟨_, Topology.routingTable_eq hfits hcontinents hm rfl hnode hdraw,
        (Topology.routesComplete_iff hfits hcontinents (fun _ _ => rfl) hm).mpr hright⟩

theorem routing_complete_fourCities : fourCities.RoutingComplete :=
  (routing_complete_iff fourCities (by constructor <;> decide) (by decide)).mpr (by decide +kernel)

/-- Two states of two cities with two districts of four nodes each, where a city has one
contact node and a district two. -/
def twoStatesOfCities : Topology where
  numNodesInDist := 4
  numCnodesInDist := 2
  numNodesInCity := 4
  numCnodesInCity := 1
  numNodesInState := 2
  numCnodesInState := 1
  numNodesInCountry := 2
  numCnodesInCountry := 1
  numNodesInContinent := 0
  numContinents := 1
  numCnodesInContinent := 1

/-- The first node draws the numbers 2 to 14 and keeps 21 nodes: those of the second
state are read with numbers of the first one. -/
theorem routing_not_complete : ¬∀ p : Topology, p.Fits → tableSizeEth + 2 ≤ p.numNodesTotal →
    p.RoutingComplete := by
  intro h
  have hends : twoStatesOfCities.SelectionEnds 0 (List.range' 2 13) :=
    ⟨0, (List.range' 1 14).map Nat.cast, by decide +kernel, by decide +kernel⟩
  obtain ⟨table, htable, hcomplete⟩ := (h twoStatesOfCities (by constructor <;> decide)
    (by decide) 0 (by decide) _ hends).1 7000
  have hlength : (BaseAppETH.formStructure twoStatesOfCities 7000 (List.range' 2 13)
      (convertIDIntToString 0 twoStatesOfCities)).map List.length = .ok 21 := by
    decide +kernel
  rw [htable] at hlength
  exact absurd (hcomplete.length.symm.trans (Except.ok.inj hlength)) (by decide)

end Hgfrr
