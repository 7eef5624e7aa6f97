import Hgfrr.Overlay.Reach
import Hgfrr.Overlay.Regions

/-!
# Rings of nested regions

Every node works out its rings alone. Members of a ring agree on it when all
regions of a level order their contact nodes alike, and then the rings form a
hierarchy. Maps with a single entry have a single order, so this holds of any
order when no map with more entries lies below a level with several regions.
-/

open Coords

namespace Regions

variable {κ : Type*} [DecidableEq κ] {R : Regions κ} {level : ℕ} {x y c : Coords}

/-- Two nodes see the same contact nodes below a level, each in its own region. -/
def AlikeAt (R : Regions κ) (level : ℕ) (x y : Coords) : Prop :=
  R.below level y = (R.below level x).map fun c => graft level c y

/-- Nodes of one region see the same contact nodes in each of its parts. -/
def Alike (R : Regions κ) : Prop :=
  ∀ level ≤ R.top, ∀ x y, R.Member x → R.Member y → AgreeFrom (level + 1) x y →
    R.AlikeAt level x y

section Agreement

theorem AlikeAt.peers_eq (halike : R.AlikeAt level x y) (h : AgreeFrom (level + 1) x y) :
    R.peers level y = R.peers level x := by
  rw [peers, halike, spread_graft h, peers]

theorem AlikeAt.kept_eq (halike : R.AlikeAt level x y) (h : AgreeFrom (level + 1) x y) :
    R.kept level y = R.kept level x := by
  rw [kept, halike.peers_eq h, kept]

theorem AlikeAt.contacts_eq (halike : R.AlikeAt level x y) (h : AgreeFrom (level + 1) x y) :
    R.contacts level y = R.contacts level x := by
  cases level with
  | zero => exact halike.kept_eq h
  | succ level => rw [contacts_succ, contacts_succ, halike.kept_eq h]

/-- A peer of a ring has that ring, and the same view of it. -/
theorem Alike.of_mem_peers (halike : R.Alike) (htop : level ≤ R.top) (hx : R.Member x)
    (h : y ∈ R.peers level x) :
    R.HasRing level y ∧ R.peers level y = R.peers level x ∧
      R.contacts level y = R.contacts level x := by
  have hagree := agreeFrom_of_mem_peers h
  have hat := halike level htop x y hx (member_of_mem_peers hx h) hagree
  refine ⟨⟨htop, mem_below_of_mem_peers ?_⟩, hat.peers_eq hagree, hat.contacts_eq hagree⟩
  rwa [hat.peers_eq hagree]

end Agreement

/-! ## When regions order their contact nodes alike -/

/-- Above a level where a map holds two contact nodes or more, no level has two
regions or more. -/
def OrderFree (R : Regions κ) : Prop :=
  ∀ level ≤ R.top, 2 ≤ R.counts level → ∀ l, 1 ≤ l → l < level → R.width l ≤ 1

/-- The first contact node below leads the ring, in the first region. -/
theorem head_peers (hcount : 0 < R.counts level) {first : Coords}
    (h : (R.below level x).head? = some first) :
    (R.peers level x).head? = some (move level 0 first x) := by
  obtain ⟨n, hn⟩ := Nat.exists_eq_add_of_lt hcount
  rw [zero_add] at hn
  obtain ⟨rest, hrest⟩ := List.head?_eq_some_iff.mp h
  rw [peers, spread, hn, List.range_succ_eq_map, hrest]
  simp

theorem head_kept (hcount : 0 < R.counts level) (hlimit : 0 < R.limits level) {first : Coords}
    (h : (R.below level x).head? = some first) :
    (R.kept level x).head? = some (move level 0 first x) := by
  obtain ⟨n, hn⟩ := Nat.exists_eq_add_of_lt hlimit
  obtain ⟨rest, hrest⟩ := List.head?_eq_some_iff.mp (head_peers hcount h)
  rw [kept, hrest, hn]
  simp

/-- A node that is the first of its district is a contact node of it. -/
theorem mem_contacts_zero (hcount : 0 < R.counts 0) (hlimit : 0 < R.limits 0) (hzero : x 0 = 0) :
    x ∈ R.contacts 0 x := by
  have hhead := head_kept hcount hlimit (x := x) rfl
  rw [move_self hzero] at hhead
  exact List.mem_of_mem_head? hhead

/-- A node that is the first of the first district is a contact node of its city. -/
theorem mem_contacts_one (hR : R.Keyed) (hx : R.Member x) (hcounts : ∀ l ≤ 1, 0 < R.counts l)
    (hlimits : ∀ l ≤ 1, 0 < R.limits l) (hzero : ∀ l ≤ 1, x l = 0) : x ∈ R.contacts 1 x := by
  have hbelow := head_kept (hcounts 0 (by omega)) (hlimits 0 (by omega)) (x := x) rfl
  rw [move_self (hzero 0 (by omega))] at hbelow
  have hhead := head_kept (hcounts 1 le_rfl) (hlimits 1 le_rfl)
    (show (R.below 1 x).head? = some x from hbelow)
  rw [move_self (hzero 1 le_rfl)] at hhead
  exact (mem_contacts_iff hR hx).mpr (List.mem_of_mem_head? hhead)

/-- If no map moves its first key, the first node is the first contact node everywhere. -/
theorem head_contacts_zero (hcounts : ∀ l ≤ level, 0 < R.counts l)
    (hlimits : ∀ l ≤ level, 0 < R.limits l)
    (horder : ∀ keys, keys.head? = some (R.key 0) → (R.order keys).head? = some (R.key 0)) :
    (R.contacts level 0).head? = some 0 := by
  have hmove (l : ℕ) : move l 0 (0 : Coords) 0 = 0 := by
    funext k
    simp [move]
  have hkept {l : ℕ} (hl : l ≤ level) (hbelow : (R.below l 0).head? = some 0) :
      (R.kept l 0).head? = some 0 := by
    rw [head_kept (hcounts l hl) (hlimits l hl) hbelow, hmove]
  induction level with
  | zero => exact hkept le_rfl rfl
  | succ level ih =>
      have hbelow := ih (fun l hl => hcounts l (by omega)) (fun l hl => hlimits l (by omega))
        fun hl => hkept (by omega)
      have hhead := hkept le_rfl hbelow
      rw [contacts_succ]
      apply Arrange.head_arrange hhead
      apply horder
      rw [List.head?_map, hhead, Option.map_some]

section OrderFree

variable (hR : R.Proper)
include hR

/-- As long as maps hold one contact node, the first one is that whose lower coordinates
are all zero. -/
theorem head_contacts (hx : R.Member x) (htop : level ≤ R.top)
    (hsingle : ∀ l, 1 ≤ l → l ≤ level → R.width l ≤ 1) :
    (R.contacts level x).head? = some (graft (level + 1) 0 x) := by
  induction level with
  | zero =>
      have hhead : (R.below 0 x).head? = some (graft 0 0 x) := rfl
      rw [contacts_zero, head_kept (hR.counts_pos 0) (hR.limits_pos 0 htop) hhead, move_zero_graft]
  | succ level ih =>
      have hbelow := ih (by omega) fun l hl hle => hsingle l hl (by omega)
      have hhead := head_kept (hR.counts_pos _) (hR.limits_pos _ htop) hbelow
      rw [move_zero_graft] at hhead
      obtain ⟨rest, hrest⟩ := List.head?_eq_some_iff.mp hhead
      have hlength := hsingle (level + 1) (by omega) le_rfl
      rw [← length_contacts hR.keyed hx, (contacts_perm hR.keyed hx).length_eq, hrest,
        List.length_cons] at hlength
      obtain rfl : rest = [] := List.length_eq_zero_iff.mp (by omega)
      rw [contacts_succ, hrest, Arrange.arrange_singleton hR.order_perm]
      rfl

theorem contacts_eq_singleton (hx : R.Member x) (htop : level ≤ R.top) (hlevel : 1 ≤ level)
    (hsingle : ∀ l, 1 ≤ l → l ≤ level → R.width l ≤ 1) :
    R.contacts level x = [graft (level + 1) 0 x] := by
  obtain ⟨rest, hrest⟩ := List.head?_eq_some_iff.mp (head_contacts hR hx htop hsingle)
  have hlength := hsingle level hlevel le_rfl
  rw [← length_contacts hR.keyed hx, hrest, List.length_cons] at hlength
  obtain rfl : rest = [] := List.length_eq_zero_iff.mp (by omega)
  exact hrest

omit hR in
/-- The contact nodes of the lowest rings do not come out of a map. -/
theorem alikeAt_one (x y : Coords) : R.AlikeAt 1 x y := by
  have hspread (z : Coords) :
      R.spread 0 [z] z = (List.range (R.counts 0)).map fun i => move 0 i z z :=
    List.map_eq_flatMap.symm
  have hmove (i : ℕ) : graft 1 (move 0 i x x) y = move 0 i y y := by
    funext l
    simp only [graft, move]
    split_ifs <;> first | rfl | omega
  rw [AlikeAt, below, below, contacts, contacts, hspread, hspread, List.map_take, List.map_map]
  simp only [Function.comp_def, hmove]

/-- Maps with one entry have one order. -/
theorem OrderFree.alike (hfree : R.OrderFree) : R.Alike := by
  intro level htop x y hx hy h
  induction level with
  | zero => rfl
  | succ level ih =>
      rcases Nat.lt_or_ge (R.counts (level + 1)) 2 with hone | htwo
      · -- with a single region both nodes are in it
        have hsame : AgreeFrom (level + 1) x y := by
          intro l hl
          rcases hl.eq_or_lt with rfl | hlt
          · have := hx (level + 1)
            have := hy (level + 1)
            omega
          · exact h l hlt
        rw [AlikeAt, below, below, (ih (by omega) hsame).contacts_eq hsame]
        have hown (c : Coords) (hc : c ∈ R.contacts level x) : graft (level + 1) c y = c :=
          graft_of_agreeFrom
            ((agreeFrom_of_mem_peers (mem_peers_of_mem_contacts hc)).symm.trans hsame)
        rw [List.map_congr_left hown, List.map_id']
      · rcases Nat.eq_zero_or_pos level with rfl | hpos
        · exact alikeAt_one x y
        · have hsingle := fun l hl hle => hfree (level + 1) htop htwo l hl (Nat.lt_succ_of_le hle)
          rw [AlikeAt, below, below, contacts_eq_singleton hR hx (by omega) hpos hsingle,
            contacts_eq_singleton hR hy (by omega) hpos hsingle, List.map_singleton, graft_graft]

end OrderFree

/-! ## The overlay of the regions -/

/-- An overlay whose rings are those that the nodes work out. -/
def Depicts (R : Regions κ) (ov : Overlay κ) : Prop :=
  ∀ x, R.Member x → ∀ level,
    (R.HasRing level x → ∃ contacts,
      ov.ring (R.key x) level = some ⟨(R.peers level x).map R.key, contacts⟩ ∧
        contacts.Perm ((R.contacts level x).map R.key)) ∧
    (¬R.HasRing level x → ov.ring (R.key x) level = none)

/-- Every ring whose contact nodes stand for one of several regions has a contact node
with number zero. -/
def ZeroKept (R : Regions κ) : Prop :=
  ∀ level < R.top, 2 ≤ R.counts (level + 1) → ∀ x, R.Member x → ∃ c ∈ R.contacts level x, c 0 = 0

theorem OrderFree.zeroKept (hR : R.Proper) (hfree : R.OrderFree) : R.ZeroKept := by
  intro level hlevel htwo x hx
  have hsingle := fun l hl hle => hfree (level + 1) hlevel htwo l hl (Nat.lt_succ_of_le hle)
  obtain ⟨rest, hrest⟩ := List.head?_eq_some_iff.mp (head_contacts hR hx hlevel.le hsingle)
  exact ⟨graft (level + 1) 0 x, by simp [hrest], by simp [graft]⟩

section Hierarchy

variable {ov : Overlay κ} {view : RingView κ}

theorem Depicts.hasRing (hov : R.Depicts ov) (hx : R.Member x)
    (h : ov.ring (R.key x) level = some view) :
    R.HasRing level x ∧ view.peers = (R.peers level x).map R.key ∧
      view.contacts.Perm ((R.contacts level x).map R.key) := by
  by_cases hring : R.HasRing level x
  · obtain ⟨contacts, heq, hperm⟩ := (hov x hx level).1 hring
    obtain rfl := Option.some.inj (h.symm.trans heq)
    exact ⟨hring, rfl, hperm⟩
  · rw [(hov x hx level).2 hring] at h
    exact nomatch h

theorem Depicts.mem_contacts (hov : R.Depicts ov) (hx : R.Member x)
    (h : ov.ring (R.key x) level = some view) {k : κ} (hk : k ∈ view.contacts) :
    ∃ c ∈ R.contacts level x, R.key c = k :=
  List.mem_map.mp ((hov.hasRing hx h).2.2.subset hk)

/-- Contact nodes of one ring are peers in the ring above. -/
theorem Alike.mem_peers_succ (halike : R.Alike) (hlevel : level < R.top) (hx : R.Member x)
    {d : Coords} (hc : c ∈ R.contacts level x) (hd : d ∈ R.contacts level x) :
    d ∈ R.peers (level + 1) c := by
  have hpeers := mem_peers_of_mem_contacts hc
  obtain ⟨_, _, hcontacts⟩ := halike.of_mem_peers hlevel.le hx hpeers
  have hagree : AgreeFrom (level + 1) d c :=
    (agreeFrom_of_mem_peers (mem_peers_of_mem_contacts hd)).symm.trans
      (agreeFrom_of_mem_peers hpeers)
  refine mem_spread.mpr ⟨c (level + 1), member_of_mem_peers hx hpeers _, d, ?_, move_own hagree⟩
  rwa [below, hcontacts]

/-- Where nodes order their contact nodes alike, the rings form a hierarchy. -/
theorem Alike.isHierarchy (hR : R.Proper) (halike : R.Alike) (hov : R.Depicts ov) :
    IsHierarchy ov {k | ∃ x, R.Member x ∧ R.key x = k} R.top where
  bottom := by
    rintro _ ⟨x, hx, rfl⟩
    obtain ⟨contacts, hring, _⟩ := (hov x hx 0).1 (hasRing_zero x)
    exact ⟨_, hring⟩
  highest := by
    rintro _ ⟨x, hx, rfl⟩ level view hview
    exact (hov.hasRing hx hview).1.1
  nodup := by
    rintro _ ⟨x, hx, rfl⟩ level view hview
    rw [(hov.hasRing hx hview).2.1]
    exact hR.keyed.nodup_keys (fun _ => member_of_mem_peers hx) (nodup_peers hR.keyed hx)
  own := by
    rintro _ ⟨x, hx, rfl⟩ level view hview
    obtain ⟨hring, hpeers, _⟩ := hov.hasRing hx hview
    rw [hpeers]
    exact List.mem_map_of_mem (hring.mem_peers hx)
  inside := by
    rintro _ ⟨x, hx, rfl⟩ level view hview k hk
    rw [(hov.hasRing hx hview).2.1] at hk
    obtain ⟨y, hy, rfl⟩ := List.mem_map.mp hk
    exact ⟨y, member_of_mem_peers hx hy, rfl⟩
  agree := by
    rintro _ ⟨x, hx, rfl⟩ level view hview k hk
    obtain ⟨hring, hpeers, hcontacts⟩ := hov.hasRing hx hview
    rw [hpeers] at hk
    obtain ⟨y, hy, rfl⟩ := List.mem_map.mp hk
    obtain ⟨hring', hpeers', hcontacts'⟩ := halike.of_mem_peers hring.1 hx hy
    obtain ⟨contacts, hother, hperm⟩ := (hov y (member_of_mem_peers hx hy) level).1 hring'
    refine ⟨_, hother, by rw [hpeers, hpeers'], fun c => ?_⟩
    rw [hcontacts'] at hperm
    exact (hperm.trans hcontacts.symm).mem_iff
  contacts_ne_nil := by
    rintro _ ⟨x, hx, rfl⟩ level view hview hnil
    obtain ⟨hring, _, hcontacts⟩ := hov.hasRing hx hview
    rw [hnil, List.nil_perm, List.map_eq_nil_iff] at hcontacts
    exact contacts_ne_nil hx hR hring.1 hcontacts
  contacts_subset := by
    rintro _ ⟨x, hx, rfl⟩ level view hview k hk
    obtain ⟨c, hc, rfl⟩ := hov.mem_contacts hx hview hk
    rw [(hov.hasRing hx hview).2.1]
    exact List.mem_map_of_mem (mem_peers_of_mem_contacts hc)
  above := by
    rintro _ ⟨x, hx, rfl⟩ level hlevel
    constructor
    · rintro ⟨upper, hupper⟩
      obtain ⟨_, hring, hmem⟩ := hasRing_succ_iff.mp (hov.hasRing hx hupper).1
      obtain ⟨contacts, hview, hperm⟩ := (hov x hx level).1 hring
      exact ⟨_, hview, hperm.symm.subset (List.mem_map_of_mem hmem)⟩
    · rintro ⟨view, hview, hk⟩
      obtain ⟨c, hc, hkey⟩ := hov.mem_contacts hx hview hk
      have hmember := member_of_mem_peers hx (mem_peers_of_mem_contacts hc)
      obtain rfl := hR.key_inj c x hmember hx hkey
      obtain ⟨contacts, hupper, _⟩ := (hov c hx (level + 1)).1
        (hasRing_succ_iff.mpr ⟨hlevel, (hov.hasRing hx hview).1, hc⟩)
      exact ⟨_, hupper⟩
  shared := by
    rintro _ ⟨x, hx, rfl⟩ level view hview hlevel k hk k' hk' upper hupper
    obtain ⟨c, hc, rfl⟩ := hov.mem_contacts hx hview hk
    obtain ⟨d, hd, rfl⟩ := hov.mem_contacts hx hview hk'
    have hmember := member_of_mem_peers hx (mem_peers_of_mem_contacts hc)
    rw [(hov.hasRing hmember hupper).2.1]
    exact List.mem_map_of_mem (halike.mem_peers_succ hlevel hx hc hd)
  single := by
    rintro _ ⟨x, hx, rfl⟩ _ ⟨y, hy, rfl⟩ view other hview hother
    have hagree : AgreeFrom (R.top + 1) x y := by
      intro l hl
      have hone := hR.counts_above l hl
      have := hx l
      have := hy l
      omega
    rw [(hov.hasRing hx hview).2.1, ← (halike _ le_rfl x y hx hy hagree).peers_eq hagree]
    exact List.mem_map_of_mem ((hov.hasRing hy hother).1.mem_peers hy)

/-- Every ring below the top is represented: among several regions by the contact node
with number zero, and a single region is the whole ring above. -/
theorem ZeroKept.represented (halike : R.Alike) (hzero : R.ZeroKept)
    (hov : R.Depicts ov)
    (hrepresents : ∀ x, R.Member x → x 0 = 0 → ov.represents (R.key x) = true) :
    ov.Represented {k | ∃ x, R.Member x ∧ R.key x = k} R.top := by
  rintro _ ⟨x, hx, rfl⟩ level view hview hlevel
  rcases Nat.lt_or_ge (R.counts (level + 1)) 2 with hone | htwo
  · right
    intro k hk upper hupper y hy
    obtain ⟨c, hc, rfl⟩ := hov.mem_contacts hx hview hk
    have hpeers := mem_peers_of_mem_contacts hc
    have hmember := member_of_mem_peers hx hpeers
    rw [(hov.hasRing hmember hupper).2.1] at hy
    obtain ⟨z, hz, rfl⟩ := List.mem_map.mp hy
    obtain ⟨i, hi, d, hd, rfl⟩ := mem_spread.mp hz
    have hregion : i = c (level + 1) := by
      have := hmember (level + 1)
      omega
    rw [hregion, move_own (agreeFrom_of_mem_below hd).symm, (hov.hasRing hx hview).2.1]
    rw [below, (halike.of_mem_peers hlevel.le hx hpeers).2.2] at hd
    exact List.mem_map_of_mem (mem_peers_of_mem_contacts hd)
  · left
    obtain ⟨c, hc, hnumber⟩ := hzero level hlevel htwo x hx
    refine ⟨R.key c, (hov.hasRing hx hview).2.2.symm.subset (List.mem_map_of_mem hc), ?_⟩
    exact hrepresents c (member_of_mem_peers hx (mem_peers_of_mem_contacts hc)) hnumber

end Hierarchy

end Regions
