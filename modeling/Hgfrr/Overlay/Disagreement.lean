import Hgfrr.Overlay.RegionRings

/-!
# Rings that disagree

Where a map with two contact nodes or more lies below a level with two regions or
more, there is an order of keys for which two members of a ring disagree on it:
it keeps the contact nodes of the first region as they were inserted, and puts
the first one of the second region last.
-/

open Coords

namespace Regions

variable {κ : Type*}

/-- The same regions with another order of keys. -/
def withOrder (R : Regions κ) (order : List κ → List κ) : Regions κ := { R with order := order }

theorem Proper.withOrder {R : Regions κ} (hR : R.Proper) {order : List κ → List κ}
    (hperm : ∀ keys, (order keys).Perm keys) : (R.withOrder order).Proper where
  counts_pos := hR.counts_pos
  counts_above := hR.counts_above
  limits_pos := hR.limits_pos
  order_perm := hperm
  key_inj := hR.key_inj

/-- The lowest map with two entries below a level with two regions, and the first such
level above it. -/
structure Crossing (R : Regions κ) (low level : ℕ) : Prop where
  low_pos : 1 ≤ low
  lt : low < level
  le_top : level ≤ R.top
  width : 2 ≤ R.width low
  counts : 2 ≤ R.counts level
  below : ∀ l, 1 ≤ l → l < low → R.width l ≤ 1
  between : ∀ l, low < l → l < level → R.counts l = 1

theorem width_withOrder (R : Regions κ) (order : List κ → List κ) (l : ℕ) :
    (R.withOrder order).width l = R.width l := by
  induction l with
  | zero => rfl
  | succ l ih =>
      rw [width, width, ih]
      rfl

theorem exists_crossing {R : Regions κ} (hR : R.Proper) (h : ¬R.OrderFree) :
    ∃ low level, R.Crossing low level := by
  classical
  have hlow : ∃ low, 1 ≤ low ∧ 2 ≤ R.width low ∧ ∃ level, low < level ∧ level ≤ R.top ∧
      2 ≤ R.counts level := by
    simp only [OrderFree, not_forall] at h
    obtain ⟨level, htop, hcounts, low, hpos, hlt, hwidth⟩ := h
    exact ⟨low, hpos, by omega, level, hlt, htop, hcounts⟩
  obtain ⟨hpos, hwidth, hlevel⟩ := Nat.find_spec hlow
  obtain ⟨hlt, htop, hcounts⟩ := Nat.find_spec hlevel
  refine ⟨Nat.find hlow, Nat.find hlevel, hpos, hlt, htop, hwidth, hcounts, ?_, ?_⟩
  · intro l hl hless
    by_contra hwide
    exact Nat.find_min hlow hless ⟨hl, by omega, _, hless.trans hlt, htop, hcounts⟩
  · intro l hl hless
    have hpos := hR.counts_pos l
    by_contra hmany
    exact Nat.find_min hlevel hless ⟨hl, by omega, by omega⟩

variable [DecidableEq κ] {R : Regions κ} {low level : ℕ}

/-- The last one is taken only with all others. -/
theorem take_of_mem_last {α : Type*} {items : List α} {last : α} {n : ℕ} (hnot : last ∉ items)
    (hmem : last ∈ (items ++ [last]).take n) : (items ++ [last]).take n = items ++ [last] := by
  refine List.take_of_length_le ?_
  by_contra hshort
  rw [List.length_append, List.length_singleton] at hshort
  rw [List.take_append_of_le_length (by omega)] at hmem
  exact hnot (List.mem_of_mem_take hmem)

/-- The last region has all its contact nodes kept only if all regions have. -/
theorem kept_eq_peers_of_last {x : Coords} (hR : R.Keyed) (hx : R.Member x)
    (hlast : x (level + 1) + 1 = R.counts (level + 1)) (hne : R.contacts level x ≠ [])
    (hkept : ∀ c ∈ R.contacts level x, c ∈ R.kept (level + 1) x) :
    R.kept (level + 1) x = R.peers (level + 1) x := by
  have hown : (R.contacts level x).map (fun c => move (level + 1) (x (level + 1)) c x) =
      R.contacts level x := by
    refine (List.map_congr_left fun c hc => ?_).trans (List.map_id _)
    exact move_own (agreeFrom_of_mem_below (show c ∈ R.below (level + 1) x from hc)).symm
  obtain ⟨rest, hpeers⟩ : ∃ rest, R.peers (level + 1) x = rest ++ R.contacts level x :=
    ⟨(List.range (x (level + 1))).flatMap fun i =>
      (R.contacts level x).map fun c => move (level + 1) i c x, by
      rw [peers, spread, ← hlast, List.range_succ, List.flatMap_append, List.flatMap_singleton,
        below, hown]⟩
  have hnodup : (R.peers (level + 1) x).Nodup := nodup_peers hR hx
  obtain ⟨others, last, hcontacts⟩ := List.eq_nil_or_concat _ |>.resolve_left hne
  have hmem := hkept last (by simp [hcontacts])
  rw [hcontacts, List.concat_eq_append, ← List.append_assoc] at hpeers
  rw [kept, hpeers] at hmem ⊢
  rw [hpeers] at hnodup
  exact take_of_mem_last (fun hin => (List.nodup_append.mp hnodup).2.2 last hin last (by simp) rfl)
    hmem

/-- A ring that is cut to the size of the ring below keeps nodes of the first region only. -/
theorem zero_of_mem_kept {x y : Coords} (hR : R.Keyed) (hx : R.Member x)
    (hcut : R.limits (level + 1) ≤ R.width level) (hy : y ∈ R.kept (level + 1) x) :
    y (level + 1) = 0 := by
  obtain ⟨n, hn⟩ := Nat.exists_eq_add_of_lt ((Nat.zero_le _).trans_lt (hx (level + 1)))
  rw [zero_add] at hn
  rw [kept, peers, spread, hn, List.range_succ_eq_map, List.flatMap_cons, below,
    List.take_append_of_le_length (by rwa [List.length_map, length_contacts hR hx])] at hy
  obtain ⟨c, _, rfl⟩ := List.mem_map.mp (List.mem_of_mem_take hy)
  exact move_at

namespace Crossing

variable (h : R.Crossing low level) (hR : R.Proper)

/-- The first node of the second region. -/
def farNode (level : ℕ) : Coords := move level 1 0 0

theorem graft_farNode {l : ℕ} (hl : l ≤ level) : graft l 0 (farNode level) = farNode level := by
  funext k
  simp only [graft, farNode, move, Pi.zero_apply]
  split_ifs <;> first | rfl | omega

theorem graft_zero {l : ℕ} : graft l 0 (0 : Coords) = 0 := by
  funext k
  simp [graft]

include h hR

omit [DecidableEq κ] in
theorem member_farNode : R.Member (farNode level) :=
  member_move hR.member_zero hR.member_zero (by have := h.counts; omega)

/-- Up to the crossing no order matters. -/
theorem kept_withOrder {order : List κ → List κ} (hperm : ∀ keys, (order keys).Perm keys)
    {x : Coords} (hx : R.Member x) : (R.withOrder order).kept low x = R.kept low x := by
  have hpos := h.low_pos
  have hlt := h.lt
  have htop := h.le_top
  have hbelow : (R.withOrder order).below low x = R.below low x := by
    obtain ⟨l, rfl⟩ := Nat.exists_eq_add_of_le' hpos
    rcases Nat.eq_zero_or_pos l with rfl | hl
    · rfl
    · have hsingle := fun k hk (hle : k ≤ l) => h.below k hk (Nat.lt_succ_of_le hle)
      rw [Regions.below, Regions.below, contacts_eq_singleton hR hx (by omega) hl hsingle]
      refine contacts_eq_singleton (hR.withOrder hperm) hx ?_ hl fun k hk hle => ?_
      · show l ≤ R.top
        omega
      · rw [width_withOrder]
        exact hsingle k hk hle
  rw [kept, peers, hbelow]
  rfl

theorem head_kept {x : Coords} (hx : R.Member x) :
    (R.kept low x).head? = some (graft (low + 1) 0 x) := by
  have hpos := h.low_pos
  have hlt := h.lt
  have htop := h.le_top
  have hbelow : (R.below low x).head? = some (graft low 0 x) := by
    obtain ⟨l, rfl⟩ := Nat.exists_eq_add_of_le' hpos
    exact head_contacts hR hx (by omega) fun k hk hle => h.below k hk (Nat.lt_succ_of_le hle)
  rw [Regions.head_kept (hR.counts_pos _) (hR.limits_pos _ (by omega)) hbelow, move_zero_graft]

/-- The contact nodes of the second region: the far node, and at least one other. -/
theorem exists_far : ∃ other others,
    R.kept low (farNode level) = farNode level :: other :: others := by
  have hmember := h.member_farNode hR
  have hhead := h.head_kept hR hmember
  rw [graft_farNode (by have := h.lt; omega)] at hhead
  obtain ⟨rest, hrest⟩ := List.head?_eq_some_iff.mp hhead
  have hlength : (R.kept low (farNode level)).length = R.width low := length_kept hR.keyed hmember
  have hwidth := h.width
  rw [hrest, List.length_cons] at hlength
  cases rest with
  | nil =>
      simp only [List.length_nil] at hlength
      omega
  | cons other others => exact ⟨other, others, hrest⟩

/-- The contact nodes of the second region, with the far node last. -/
def farLast (R : Regions κ) (low level : ℕ) : List Coords :=
  (R.kept low (farNode level)).tail ++ [farNode level]

omit h hR in
/-- The keys of the first region as they are inserted, then those of the second. -/
def ranked (R : Regions κ) (low level : ℕ) : List κ :=
  (R.kept low 0 ++ farLast R low level).map R.key

omit h hR in
/-- The order by these ranks. -/
def crossed (R : Regions κ) [LinearOrder κ] (low level : ℕ) : Regions κ :=
  R.withOrder (Arrange.byRank (ranked R low level))

theorem farLast_perm : (R.kept low (farNode level)).Perm (farLast R low level) := by
  obtain ⟨other, others, heq⟩ := h.exists_far hR
  rw [farLast, heq, List.tail_cons]
  exact (List.perm_append_singleton _ _).symm

theorem nodup_ranked : (ranked R low level).Nodup := by
  have hfar := h.member_farNode hR
  have hperm := h.farLast_perm hR
  refine hR.keyed.nodup_keys ?_ ?_
  · intro y hy
    rcases List.mem_append.mp hy with hy | hy
    · exact member_of_mem_peers hR.member_zero (mem_peers_of_mem_kept hy)
    · exact member_of_mem_peers hfar (mem_peers_of_mem_kept (hperm.symm.subset hy))
  · rw [List.nodup_append]
    refine ⟨nodup_kept hR.keyed hR.member_zero, hperm.nodup_iff.mp (nodup_kept hR.keyed hfar), ?_⟩
    -- the two regions have different numbers
    rintro y hy _ hy' rfl
    have hzero := agreeFrom_of_mem_peers (mem_peers_of_mem_kept hy) level (by have := h.lt; omega)
    have hone := agreeFrom_of_mem_peers (mem_peers_of_mem_kept (hperm.symm.subset hy')) level
      (by have := h.lt; omega)
    rw [farNode, move_at] at hone
    rw [← hzero] at hone
    simp at hone

section Views

variable [LinearOrder κ]

omit h in
theorem crossed_proper : (crossed R low level).Proper :=
  hR.withOrder (Arrange.byRank_perm _)

theorem crossed_kept {x : Coords} (hx : R.Member x) :
    (crossed R low level).kept low x = R.kept low x :=
  h.kept_withOrder hR (Arrange.byRank_perm _) hx

omit hR in
/-- Between the two levels the ring is that of the contact nodes below. -/
theorem crossed_peers_succ {x : Coords} (hx : R.Member x) {l : ℕ} (hlow : low ≤ l)
    (hlevel : l + 1 < level) :
    (crossed R low level).peers (l + 1) x = (crossed R low level).contacts l x :=
  spread_single hx (h.between (l + 1) (Nat.lt_succ_of_le hlow) hlevel)
    fun c hc => agreeFrom_of_mem_below (show c ∈ (crossed R low level).below (l + 1) x from hc)

/-- The first region keeps the order of insertion. -/
theorem contacts_near {l : ℕ} (hlow : low ≤ l) (hlevel : l < level) :
    ∃ n, 0 < n ∧ (crossed R low level).contacts l 0 = (R.kept low 0).take n := by
  have htop := h.le_top
  have harrange (n : ℕ) : Arrange.arrange R.key (Arrange.byRank (ranked R low level))
      ((R.kept low 0).take n) = (R.kept low 0).take n := by
    refine Arrange.arrange_byRank _ (h.nodup_ranked hR) (List.Sublist.map _ ?_) (.refl _)
    exact (List.take_sublist _ _).trans (List.sublist_append_left _ _)
  induction l, hlow using Nat.le_induction with
  | base =>
      obtain ⟨l, rfl⟩ := Nat.exists_eq_add_of_le' h.low_pos
      refine ⟨(R.kept (l + 1) 0).length, ?_, ?_⟩
      · rw [length_kept hR.keyed hR.member_zero]
        exact hR.width_pos (by omega)
      · have hall := harrange (R.kept (l + 1) 0).length
        rw [List.take_length] at hall ⊢
        rw [contacts_succ, h.crossed_kept hR hR.member_zero]
        exact hall
  | succ l hle ih =>
      obtain ⟨n, hn, hcontacts⟩ := ih (by omega)
      refine ⟨min (R.limits (l + 1)) n, lt_min (hR.limits_pos _ (by omega)) hn, ?_⟩
      rw [contacts_succ, kept, h.crossed_peers_succ hR.member_zero hle hlevel, hcontacts,
        List.take_take]
      exact harrange _

/-- As long as the far node takes part, it is the last of its region. -/
theorem contacts_far (hring : (crossed R low level).HasRing level (farNode level)) {l : ℕ}
    (hlow : low ≤ l) (hlevel : l < level) :
    (crossed R low level).contacts l (farNode level) = farLast R low level := by
  have hfar := h.member_farNode hR
  have harrange {items : List Coords} (hitems : items.Perm (farLast R low level)) :
      Arrange.arrange R.key (Arrange.byRank (ranked R low level)) items = farLast R low level :=
    Arrange.arrange_byRank _ (h.nodup_ranked hR)
      (List.Sublist.map _ (List.sublist_append_right _ _)) hitems
  induction l, hlow using Nat.le_induction with
  | base =>
      obtain ⟨l, rfl⟩ := Nat.exists_eq_add_of_le' h.low_pos
      rw [contacts_succ, h.crossed_kept hR hfar]
      exact harrange (h.farLast_perm hR)
  | succ l hle ih =>
      have hkept : (crossed R low level).kept (l + 1) (farNode level) =
          (farLast R low level).take (R.limits (l + 1)) := by
        rw [kept, h.crossed_peers_succ hfar hle hlevel, ih (by omega)]
        rfl
      have hmem := mem_kept_of_mem_contacts (hring.mem_contacts hlevel)
      rw [hkept] at hmem
      have hnot : farNode level ∉ (R.kept low (farNode level)).tail := by
        have hnodup : (R.kept low (farNode level)).Nodup := nodup_kept hR.keyed hfar
        obtain ⟨other, others, heq⟩ := h.exists_far hR
        rw [heq] at hnodup ⊢
        exact (List.nodup_cons.mp hnodup).1
      rw [contacts_succ, hkept, farLast, take_of_mem_last hnot hmem]
      exact harrange (.refl _)

/-- The two first nodes of a ring at the level disagree about it. -/
theorem disagree : (crossed R low level).HasRing level 0 ∧
    farNode level ∈ (crossed R low level).peers level 0 ∧
      ¬((crossed R low level).HasRing level (farNode level) ∧
        (crossed R low level).peers level (farNode level) =
          (crossed R low level).peers level 0) := by
  have hlt := h.lt
  have hproper : (crossed R low level).Proper := crossed_proper hR
  obtain ⟨l, rfl⟩ := Nat.exists_eq_add_of_lt (show 0 < level by omega)
  rw [zero_add] at *
  have hhead : ((crossed R low (l + 1)).below (l + 1) 0).head? = some 0 := by
    obtain ⟨n, hn, hcontacts⟩ := h.contacts_near hR (Nat.le_of_lt_succ hlt) (Nat.lt_succ_self l)
    obtain ⟨rest, hrest⟩ := List.head?_eq_some_iff.mp (h.head_kept hR hR.member_zero)
    obtain ⟨m, rfl⟩ := Nat.exists_eq_add_of_lt hn
    rw [Regions.below, hcontacts, hrest, graft_zero]
    simp
  have hzero : (0 : Coords) ∈ (crossed R low (l + 1)).below (l + 1) 0 :=
    List.mem_of_mem_head? (by simp [hhead])
  refine ⟨⟨h.le_top, hzero⟩, ?_, ?_⟩
  · exact mem_spread.mpr ⟨1, Nat.lt_of_succ_le h.counts, 0, hzero, rfl⟩
  · rintro ⟨hring, hpeers⟩
    obtain ⟨other, others, heq⟩ := h.exists_far hR
    have hkept : other ∈ R.kept low (farNode (l + 1)) := by simp [heq]
    have hother := agreeFrom_of_mem_peers (mem_peers_of_mem_kept hkept)
    have hfarHead : ((crossed R low (l + 1)).below (l + 1) (farNode (l + 1))).head? =
        some other := by
      rw [Regions.below, h.contacts_far hR hring (Nat.le_of_lt_succ hlt) (Nat.lt_succ_self l),
        farLast, heq]
      rfl
    have hfirst := head_peers (hproper.counts_pos _) hfarHead
    rw [hpeers, head_peers (hproper.counts_pos _) hhead, Option.some.injEq] at hfirst
    have hsame : other = farNode (l + 1) := by
      funext k
      rcases Nat.lt_or_ge k (l + 1) with hk | hk
      · have := congrFun hfirst k
        simp only [move, hk, if_true] at this
        simp [← this, farNode, move, hk]
      · exact (hother k (by omega)).symm
    have hnodup : (R.kept low (farNode (l + 1))).Nodup := nodup_kept hR.keyed (h.member_farNode hR)
    rw [heq, hsame] at hnodup
    simp at hnodup

end Views

end Crossing

end Regions
