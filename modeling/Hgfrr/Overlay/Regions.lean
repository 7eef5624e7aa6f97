import Hgfrr.Foundation.Arrange

/-!
# Nested regions

A network of regions within regions. A node is known by its coordinates: its
number in the lowest region, and the number of its region on each level. Every
node works out the ring of a level from the contact nodes that it takes its own
region below to have, moved to each of the regions of the level. From level one
on, the contact nodes come out of a map, in an order given by their keys.
-/

/-- Coordinates by level. -/
abbrev Coords := ℕ → ℕ

namespace Coords

/-- The same from a level on. -/
def AgreeFrom (level : ℕ) (x y : Coords) : Prop := ∀ l, level ≤ l → x l = y l

/-- `low` below a level, `high` from it on. -/
def graft (level : ℕ) (low high : Coords) : Coords := fun l =>
  if l < level then low l else high l

/-- `low` moved to region `i` of a level. -/
def move (level i : ℕ) (low high : Coords) : Coords := fun l =>
  if l < level then low l else if l = level then i else high l

variable {level i j : ℕ} {x y z low low' high : Coords}

theorem AgreeFrom.refl (level : ℕ) (x : Coords) : AgreeFrom level x x := fun _ _ => rfl

theorem AgreeFrom.symm (h : AgreeFrom level x y) : AgreeFrom level y x :=
  fun l hl => (h l hl).symm

theorem AgreeFrom.trans (h : AgreeFrom level x y) (h' : AgreeFrom level y z) :
    AgreeFrom level x z := fun l hl => (h l hl).trans (h' l hl)

theorem AgreeFrom.mono {higher : ℕ} (h : AgreeFrom level x y) (hle : level ≤ higher) :
    AgreeFrom higher x y := fun l hl => h l (hle.trans hl)

@[simp] theorem move_at : move level i low high level = i := by simp [move]

theorem agreeFrom_move : AgreeFrom (level + 1) high (move level i low high) := by
  intro l hl
  simp only [move]
  split_ifs <;> first | rfl | omega

theorem graft_of_agreeFrom (h : AgreeFrom level low high) : graft level low high = low := by
  funext l
  simp only [graft]
  split
  next => rfl
  next hl => exact (h l (not_lt.mp hl)).symm

theorem graft_graft : graft level (graft level low x) y = graft level low y := by
  funext l
  simp only [graft]
  split <;> rfl

/-- The part below a region moves with it. -/
theorem move_graft (h : AgreeFrom (level + 1) x y) :
    move level i (graft level low y) y = move level i low x := by
  funext l
  simp only [move, graft]
  split_ifs with hl heq
  · rfl
  · rfl
  · exact (h l (by omega)).symm

/-- A node is its own lower part, at its own place. -/
theorem move_own (h : AgreeFrom level low high) : move level (high level) low high = low := by
  funext l
  simp only [move]
  split_ifs with hl heq
  · rfl
  · exact (h l heq.ge).symm ▸ heq ▸ rfl
  · exact (h l (by omega)).symm

theorem move_self (h : x level = i) : move level i x x = x :=
  h ▸ move_own (AgreeFrom.refl level x)

theorem move_zero_graft : move level 0 (graft level 0 x) x = graft (level + 1) 0 x := by
  funext l
  simp only [move, graft]
  split_ifs <;> first | rfl | omega

theorem move_inj (hlow : AgreeFrom level low high) (hlow' : AgreeFrom level low' high)
    (h : move level i low high = move level j low' high) : i = j ∧ low = low' := by
  refine ⟨by simpa using congrFun h level, ?_⟩
  funext l
  rcases lt_or_ge l level with hl | hl
  · simpa [move, hl] using congrFun h l
  · exact (hlow l hl).trans (hlow' l hl).symm

end Coords

open Coords

/-- The shape of a network: how many regions there are to a region one level up (nodes
in the lowest region at level zero), how many contact nodes a ring has at most, and
the order in which a map gives its keys. -/
structure Regions (κ : Type*) where
  top : ℕ
  counts : ℕ → ℕ
  limits : ℕ → ℕ
  key : Coords → κ
  order : List κ → List κ

namespace Regions

variable {κ : Type*}

section Spread

variable (R : Regions κ)

/-- The nodes of the network. -/
def Member (x : Coords) : Prop := ∀ l, x l < R.counts l

/-- Nodes moved to every region of a level. -/
def spread (level : ℕ) (nodes : List Coords) (x : Coords) : List Coords :=
  (List.range (R.counts level)).flatMap fun i => nodes.map fun c => move level i c x

/-- The number of contact nodes of a ring. -/
def width : ℕ → ℕ
  | 0 => min (R.limits 0) (R.counts 0)
  | level + 1 => min (R.limits (level + 1)) (R.counts (level + 1) * width level)

/-- No region is empty, there are no regions above the top, every ring has a contact
node, and keys tell the nodes apart. -/
structure Proper : Prop where
  counts_pos : ∀ level, 0 < R.counts level
  counts_above : ∀ level, R.top < level → R.counts level = 1
  limits_pos : ∀ level, level ≤ R.top → 0 < R.limits level
  order_perm : ∀ keys, (R.order keys).Perm keys
  key_inj : ∀ x y, R.Member x → R.Member y → R.key x = R.key y → x = y

/-- Keys tell the nodes apart, and an order of keys only reorders them. -/
structure Keyed : Prop where
  order_perm : ∀ keys, (R.order keys).Perm keys
  key_inj : ∀ x y, R.Member x → R.Member y → R.key x = R.key y → x = y

variable {R} {level i : ℕ} {x y c : Coords} {nodes : List Coords}

theorem Proper.keyed (hR : R.Proper) : R.Keyed := ⟨hR.order_perm, hR.key_inj⟩

theorem mem_spread :
    y ∈ R.spread level nodes x ↔ ∃ i < R.counts level, ∃ c ∈ nodes, move level i c x = y := by
  simp [spread]

theorem member_move (hx : R.Member x) (hc : R.Member c) (hi : i < R.counts level) :
    R.Member (move level i c x) := by
  intro l
  simp only [move]
  split_ifs with hl heq
  · exact hc l
  · exact heq ▸ hi
  · exact hx l

theorem nodup_spread (hnodup : nodes.Nodup) (hagree : ∀ c ∈ nodes, AgreeFrom level x c) :
    (R.spread level nodes x).Nodup := by
  rw [spread, List.nodup_flatMap]
  refine ⟨fun i _ => ?_, ?_⟩
  · refine hnodup.map_on fun c hc c' hc' h => ?_
    exact (move_inj (hagree c hc).symm (hagree c' hc').symm h).2
  · refine (List.nodup_range).imp fun {i j} hne => ?_
    rw [Function.onFun, List.disjoint_left]
    intro y hy hy'
    obtain ⟨c, _, rfl⟩ := List.mem_map.mp hy
    obtain ⟨c', _, h⟩ := List.mem_map.mp hy'
    exact hne (by simpa using (congrFun h level).symm)

theorem length_spread : (R.spread level nodes x).length = R.counts level * nodes.length := by
  simp [spread, List.length_flatMap]

/-- Only the lower parts of the nodes matter, and only where the regions above are. -/
theorem spread_graft (h : AgreeFrom (level + 1) x y) :
    R.spread level (nodes.map fun c => graft level c y) y = R.spread level nodes x := by
  simp only [spread, List.map_map, Function.comp_def, move_graft h]

/-- One region only adds nothing. -/
theorem spread_single (hx : R.Member x) (hone : R.counts level = 1)
    (hagree : ∀ c ∈ nodes, AgreeFrom level x c) : R.spread level nodes x = nodes := by
  have hzero : x level = 0 := by
    have := hx level
    omega
  have hmove : ∀ c ∈ nodes, move level 0 c x = id c := by
    intro c hc
    rw [← hzero]
    exact move_own (hagree c hc).symm
  rw [spread, hone, List.range_one, List.flatMap_singleton, List.map_congr_left hmove, List.map_id]

theorem Proper.member_zero (hR : R.Proper) : R.Member 0 := hR.counts_pos

theorem Keyed.nodup_keys (hR : R.Keyed) (hmember : ∀ y ∈ nodes, R.Member y)
    (hnodup : nodes.Nodup) : (nodes.map R.key).Nodup :=
  hnodup.map_on fun y hy z hz => hR.key_inj y z (hmember y hy) (hmember z hz)

theorem Keyed.eq_of_map_key_eq (hR : R.Keyed) {left right : List Coords}
    (hleft : ∀ y ∈ left, R.Member y) (hright : ∀ y ∈ right, R.Member y)
    (h : left.map R.key = right.map R.key) : left = right := by
  induction left generalizing right with
  | nil => exact (List.map_eq_nil_iff.mp h.symm).symm
  | cons y left ih =>
      obtain ⟨z, rest, rfl, hz, hrest⟩ := List.map_eq_cons_iff.mp h.symm
      obtain ⟨hy, hleft⟩ := List.forall_mem_cons.mp hleft
      obtain ⟨hzmember, hright⟩ := List.forall_mem_cons.mp hright
      rw [hR.key_inj y z hy hzmember hz.symm, ih hleft hright hrest.symm]

theorem Proper.width_pos (hR : R.Proper) (htop : level ≤ R.top) : 0 < R.width level := by
  have hlimit := hR.limits_pos level htop
  have hcount := hR.counts_pos level
  induction level with
  | zero => exact lt_min hlimit hcount
  | succ level ih =>
      have hbelow := ih (by omega) (hR.limits_pos level (by omega)) (hR.counts_pos level)
      exact lt_min hlimit (Nat.mul_pos hcount hbelow)

end Spread

variable [DecidableEq κ] (R : Regions κ)

/-- The contact nodes of the ring of a level, as a node `x` works them out. -/
def contacts : ℕ → Coords → List Coords
  | 0, x => (R.spread 0 [x] x).take (R.limits 0)
  | level + 1, x =>
      Arrange.arrange R.key R.order
        ((R.spread (level + 1) (contacts level x) x).take (R.limits (level + 1)))

/-- What the ring of a level is made from: the contact nodes one level below. -/
def below : ℕ → Coords → List Coords
  | 0, x => [x]
  | level + 1, x => R.contacts level x

/-- The ring of a level, as a node works it out. -/
def peers (level : ℕ) (x : Coords) : List Coords := R.spread level (R.below level x) x

/-- The peers that become contact nodes, in the order in which they do. -/
def kept (level : ℕ) (x : Coords) : List Coords := (R.peers level x).take (R.limits level)

/-- The nodes that form the ring of a level. -/
def HasRing (level : ℕ) (x : Coords) : Prop := level ≤ R.top ∧ x ∈ R.below level x

variable {R} {level i : ℕ} {x y c : Coords}

section Shape

theorem contacts_zero (x : Coords) : R.contacts 0 x = R.kept 0 x := rfl

theorem contacts_succ (level : ℕ) (x : Coords) :
    R.contacts (level + 1) x = Arrange.arrange R.key R.order (R.kept (level + 1) x) := rfl

theorem mem_kept_of_mem_contacts (h : y ∈ R.contacts level x) : y ∈ R.kept level x := by
  cases level with
  | zero => exact h
  | succ level => exact Arrange.mem_of_mem_arrange h

theorem mem_peers_of_mem_kept (h : y ∈ R.kept level x) : y ∈ R.peers level x :=
  List.mem_of_mem_take h

theorem mem_peers_of_mem_contacts (h : y ∈ R.contacts level x) : y ∈ R.peers level x :=
  mem_peers_of_mem_kept (mem_kept_of_mem_contacts h)

theorem agreeFrom_of_mem_peers (h : y ∈ R.peers level x) : AgreeFrom (level + 1) x y := by
  obtain ⟨i, _, c, _, rfl⟩ := mem_spread.mp h
  exact agreeFrom_move

theorem agreeFrom_of_mem_below (h : c ∈ R.below level x) : AgreeFrom level x c := by
  cases level with
  | zero =>
      obtain rfl : c = x := by simpa [below] using h
      exact AgreeFrom.refl _ _
  | succ level => exact agreeFrom_of_mem_peers (mem_peers_of_mem_contacts h)

theorem member_of_mem_peers (hx : R.Member x) (h : y ∈ R.peers level x) : R.Member y := by
  induction level generalizing y with
  | zero =>
      obtain ⟨i, hi, c, hc, rfl⟩ := mem_spread.mp h
      obtain rfl : c = x := by simpa [below] using hc
      exact member_move hx hx hi
  | succ level ih =>
      obtain ⟨i, hi, c, hc, rfl⟩ := mem_spread.mp h
      exact member_move hx (ih (mem_peers_of_mem_contacts hc)) hi

/-- A node that sees itself in a ring is a contact node of its ring below. -/
theorem mem_below_of_mem_peers (h : x ∈ R.peers level x) : x ∈ R.below level x := by
  obtain ⟨i, _, c, hc, hmove⟩ := mem_spread.mp h
  have hi : i = x level := by rw [← congrFun hmove level, move_at]
  have hown : c = x := by
    rw [← hmove, hi]
    exact (move_own (agreeFrom_of_mem_below hc).symm).symm
  exact hown ▸ hc

theorem mem_peers_of_mem_below (hx : R.Member x) (h : x ∈ R.below level x) :
    x ∈ R.peers level x :=
  mem_spread.mpr ⟨x level, hx level, x, h, move_own (AgreeFrom.refl _ _)⟩

theorem hasRing_zero (x : Coords) : R.HasRing 0 x := ⟨Nat.zero_le _, by simp [below]⟩

/-- A node has the next ring when it is a contact node of its ring. -/
theorem hasRing_succ_iff : R.HasRing (level + 1) x ↔
    level < R.top ∧ R.HasRing level x ∧ x ∈ R.contacts level x := by
  constructor
  · rintro ⟨htop, hmem⟩
    exact ⟨htop, ⟨by omega, mem_below_of_mem_peers (mem_peers_of_mem_contacts hmem)⟩, hmem⟩
  · rintro ⟨htop, _, hmem⟩
    exact ⟨htop, hmem⟩

theorem HasRing.of_le {lower : ℕ} (h : R.HasRing level x) (hle : lower ≤ level) :
    R.HasRing lower x := by
  induction hle using Nat.decreasingInduction with
  | self => exact h
  | of_succ lower _ ih => exact (hasRing_succ_iff.mp ih).2.1

theorem HasRing.mem_contacts {lower : ℕ} (h : R.HasRing level x) (hlt : lower < level) :
    x ∈ R.contacts lower x :=
  (h.of_le (Nat.succ_le_of_lt hlt)).2

theorem HasRing.mem_peers (h : R.HasRing level x) (hx : R.Member x) : x ∈ R.peers level x :=
  mem_peers_of_mem_below hx h.2

end Shape

section Counting

variable (hR : R.Keyed) (hx : R.Member x)
include hR hx

/-- Nothing is counted twice, so the map of contact nodes only reorders them. -/
theorem nodup_peers : (R.peers level x).Nodup := by
  induction level with
  | zero => exact nodup_spread (List.nodup_singleton x) fun c => agreeFrom_of_mem_below
  | succ level ih =>
      refine nodup_spread ?_ fun c => agreeFrom_of_mem_below
      have hkept : (R.kept level x).Nodup := ih.sublist (List.take_sublist _ _)
      cases level with
      | zero => exact hkept
      | succ level =>
          refine ((Arrange.arrange_perm (hR.order_perm _) ?_).nodup_iff).mpr hkept
          exact hR.nodup_keys
            (fun y hy => member_of_mem_peers hx (mem_peers_of_mem_kept hy)) hkept

theorem nodup_kept : (R.kept level x).Nodup :=
  (nodup_peers hR hx).sublist (List.take_sublist _ _)

theorem nodup_keys_kept : ((R.kept level x).map R.key).Nodup :=
  hR.nodup_keys (fun _ hy => member_of_mem_peers hx (mem_peers_of_mem_kept hy)) (nodup_kept hR hx)

theorem contacts_perm : (R.contacts level x).Perm (R.kept level x) := by
  cases level with
  | zero => exact .refl _
  | succ level => exact Arrange.arrange_perm (hR.order_perm _) (nodup_keys_kept hR hx)

theorem mem_contacts_iff : y ∈ R.contacts level x ↔ y ∈ R.kept level x :=
  (contacts_perm hR hx).mem_iff

theorem length_contacts : (R.contacts level x).length = R.width level := by
  rw [(contacts_perm hR hx).length_eq, kept, List.length_take, peers, length_spread]
  induction level with
  | zero => simp [below, width]
  | succ level ih =>
      rw [below, (contacts_perm hR hx).length_eq, kept, List.length_take, peers, length_spread, ih,
        width]

theorem length_kept : (R.kept level x).length = R.width level := by
  rw [← (contacts_perm hR hx).length_eq, length_contacts hR hx]

omit hR in
theorem contacts_ne_nil (hR : R.Proper) (htop : level ≤ R.top) : R.contacts level x ≠ [] := by
  have hpos := hR.width_pos htop
  rw [← length_contacts hR.keyed hx] at hpos
  exact List.ne_nil_of_length_pos hpos

/-- A ring that is not cut short has all its peers as contact nodes. -/
theorem kept_eq_peers (hall : R.counts (level + 1) * R.width level ≤ R.limits (level + 1)) :
    R.kept (level + 1) x = R.peers (level + 1) x := by
  apply List.take_of_length_le
  rw [peers, length_spread, below, length_contacts hR hx]
  exact hall

/-- A single region above a ring changes nothing if all its contact nodes are kept. -/
theorem contacts_succ_eq (horder : ∀ keys keys', keys.Perm keys' → R.order keys = R.order keys')
    (hone : R.counts (level + 2) = 1) (hall : R.width (level + 1) ≤ R.limits (level + 2)) :
    R.contacts (level + 2) x = R.contacts (level + 1) x := by
  have hpeers : R.peers (level + 2) x = R.contacts (level + 1) x :=
    spread_single hx hone fun c hc =>
      agreeFrom_of_mem_below (show c ∈ R.below (level + 2) x from hc)
  have hperm : (R.contacts (level + 1) x).Perm (R.kept (level + 1) x) := contacts_perm hR hx
  have hnodup := (hperm.map R.key).nodup_iff.mpr (nodup_keys_kept hR hx)
  rw [contacts_succ, kept_eq_peers hR hx (by rwa [hone, Nat.one_mul]), hpeers]
  exact Arrange.arrange_congr hR.order_perm horder hnodup hperm

omit hR in
/-- A contact node is a peer in the ring above. -/
theorem mem_peers_succ (h : c ∈ R.contacts level x) : c ∈ R.peers (level + 1) x := by
  have hagree := agreeFrom_of_mem_peers (mem_peers_of_mem_contacts h)
  exact mem_spread.mpr ⟨x (level + 1), hx _, c, h, move_own hagree.symm⟩

end Counting

end Regions
