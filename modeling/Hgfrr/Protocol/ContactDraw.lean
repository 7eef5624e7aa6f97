import Hgfrr.Foundation.Counting
import Hgfrr.Protocol.Network

/-!
# The draw of contact nodes

An election draws random positions of the peer list until three of them are
different. The modulus is the last position of the list, not its size, so the last
member is never drawn and a ring of three never gives three positions.
-/

namespace Hgfrr

/-- One round of the loop: how many positions are missing, and those drawn. -/
def drawRound (numPeers : ℤ) (state : ℕ × List ℤ) (rand : ℕ) : Except Fault (ℕ × List ℤ) :=
  match state with
  | (0, randomIds) => .ok (0, randomIds)
  | (missing + 1, randomIds) =>
      if numPeers = 0 then .error .undefinedBehaviour
      else if Int.tmod rand numPeers ∈ randomIds then .ok (missing + 1, randomIds)
      else .ok (missing, Int.tmod rand numPeers :: randomIds)

/-- From every state of the loop some random values end it, with different positions
of a ring of `n` peers. -/
def DrawFinishes (numPeers : ℤ) (n : ℕ) : Prop :=
  ∀ (draws : List ℕ) (state : ℕ × List ℤ),
    draws.foldlM (drawRound numPeers) (numContactNodes, []) = .ok state →
    ∃ rest elected, drawContactNodes numPeers rest state.1 state.2 = .ok elected ∧
      elected.length = numContactNodes ∧ elected.Nodup ∧ ∀ id ∈ elected, 0 ≤ id ∧ id < n

/-- Some random values elect a position. -/
def Electable (numPeers : ℤ) (p : ℕ) : Prop :=
  ∃ draws elected, drawContactNodes numPeers draws numContactNodes [] = .ok elected ∧
    (p : ℤ) ∈ elected

/-- A draw over a ring of `n` peers can always be finished, and is open to all. The
modulus is `numPeers`. -/
structure DrawOpen (numPeers : ℤ) (n : ℕ) : Prop where
  modulus_pos : 0 < numPeers
  finishes : DrawFinishes numPeers n
  open_to_all : ∀ p < n, Electable numPeers p

section Loop

variable {numPeers : ℤ} {m missing : ℕ} {randomIds elected : List ℤ}

/-- The loop goes on where the rounds of a first part of the draws have left it. -/
theorem drawContactNodes_append (draws rest : List ℕ) (state : ℕ × List ℤ) :
    drawContactNodes numPeers (draws ++ rest) state.1 state.2 =
      draws.foldlM (drawRound numPeers) state >>= fun state =>
        drawContactNodes numPeers rest state.1 state.2 := by
  induction draws generalizing state with
  | nil => rfl
  | cons rand draws ih =>
      obtain ⟨missing, randomIds⟩ := state
      rw [List.cons_append, List.foldlM_cons]
      cases missing with
      | zero =>
          have hdone := ih (0, randomIds)
          simp only [drawContactNodes] at hdone ⊢
          exact hdone
      | succ missing =>
          simp only [drawContactNodes, drawRound]
          split
          next => rfl
          next =>
            split
            next => exact ih (missing + 1, randomIds)
            next => exact ih (missing, _ :: randomIds)

/-- Positions drawn are different positions below the modulus. -/
def Drawn (m : ℕ) (randomIds : List ℤ) : Prop :=
  randomIds.Nodup ∧ ∀ id ∈ randomIds, 0 ≤ id ∧ id < m

theorem Drawn.length_le (h : Drawn m randomIds) : randomIds.length ≤ m := by
  have hsubset : randomIds ⊆ (List.range m).map Int.ofNat := by
    intro id hid
    obtain ⟨hpos, hlt⟩ := h.2 id hid
    exact List.mem_map.mpr ⟨id.toNat, List.mem_range.mpr (by omega), Int.toNat_of_nonneg hpos⟩
  simpa using (h.1.subperm hsubset).length_le

theorem Drawn.cons (h : Drawn m randomIds) {rand : ℕ} (hm : 0 < m)
    (hfresh : Int.tmod rand m ∉ randomIds) : Drawn m (Int.tmod rand m :: randomIds) := by
  refine ⟨List.nodup_cons.mpr ⟨hfresh, h.1⟩, List.forall_mem_cons.mpr ⟨⟨?_, ?_⟩, h.2⟩⟩
  · exact Int.tmod_nonneg _ (Int.natCast_nonneg rand)
  · exact Int.tmod_lt_of_pos _ (by omega)

/-- What a draw that ends has elected. -/
theorem drawn_of_drawContactNodes (hm : 0 < m) (draws : List ℕ) (hdrawn : Drawn m randomIds)
    (h : drawContactNodes m draws missing randomIds = .ok elected) :
    Drawn m elected ∧ elected.length = randomIds.length + missing ∧ randomIds ⊆ elected := by
  induction draws generalizing missing randomIds with
  | nil =>
      cases missing with
      | zero =>
          obtain rfl := Except.ok.inj h
          exact ⟨hdrawn, rfl, List.Subset.refl _⟩
      | succ missing => exact nomatch h
  | cons rand draws ih =>
      cases missing with
      | zero =>
          obtain rfl := Except.ok.inj h
          exact ⟨hdrawn, rfl, List.Subset.refl _⟩
      | succ missing =>
          rw [drawContactNodes, if_neg (by omega)] at h
          split at h
          next => exact ih hdrawn h
          next hfresh =>
            obtain ⟨hall, hlength, hsub⟩ := ih (hdrawn.cons hm hfresh) h
            refine ⟨hall, ?_, fun id hid => hsub (List.mem_cons_of_mem _ hid)⟩
            rw [hlength, List.length_cons]
            omega

/-- The rounds keep count of the positions. -/
theorem drawn_of_rounds (hm : 0 < m) (draws : List ℕ) {state state' : ℕ × List ℤ}
    (hdrawn : Drawn m state.2) (h : draws.foldlM (drawRound m) state = .ok state') :
    Drawn m state'.2 ∧ state'.2.length + state'.1 = state.2.length + state.1 := by
  induction draws generalizing state with
  | nil =>
      obtain rfl := Except.ok.inj h
      exact ⟨hdrawn, rfl⟩
  | cons rand draws ih =>
      obtain ⟨missing, randomIds⟩ := state
      rw [List.foldlM_cons] at h
      obtain ⟨next, hround, h⟩ := Except.bind_eq_ok.mp h
      cases missing with
      | zero =>
          obtain rfl := Except.ok.inj hround
          exact ih hdrawn h
      | succ missing =>
          rw [drawRound, if_neg (by omega)] at hround
          split at hround
          next =>
            obtain rfl := Except.ok.inj hround
            exact ih hdrawn h
          next hfresh =>
            obtain rfl := Except.ok.inj hround
            obtain ⟨hall, hcount⟩ := ih (hdrawn.cons hm hfresh) h
            refine ⟨hall, hcount.trans ?_⟩
            simp only [List.length_cons]
            omega

/-- As long as there are positions enough, random values exist that end the draw. -/
theorem Drawn.exists_draws (h : Drawn m randomIds) (missing : ℕ)
    (hroom : randomIds.length + missing ≤ m) :
    ∃ draws elected, drawContactNodes m draws missing randomIds = .ok elected := by
  induction missing generalizing randomIds with
  | zero => exact ⟨[], randomIds, rfl⟩
  | succ missing ih =>
      obtain ⟨rand, hrand, hnew⟩ := List.exists_lt_notMem (l := randomIds.map Int.toNat) (m := m)
        (by rw [List.length_map]; omega)
      have hmod : Int.tmod rand m = rand := by
        exact_mod_cast Int.tmod_eq_of_lt (Int.natCast_nonneg rand) (by exact_mod_cast hrand)
      have hfresh : Int.tmod rand m ∉ randomIds := by
        rw [hmod]
        exact fun hmem => hnew (List.mem_map_of_mem (f := Int.toNat) hmem)
      obtain ⟨draws, elected, hdraws⟩ := ih (h.cons (by omega) hfresh) (by
        rw [List.length_cons]
        omega)
      refine ⟨rand :: draws, elected, ?_⟩
      rw [drawContactNodes, if_neg (by omega), if_neg hfresh]
      exact hdraws

theorem drawn_nil (m : ℕ) : Drawn m [] := ⟨List.nodup_nil, by simp⟩

/-- A draw finishes when the modulus leaves room for all positions. -/
theorem drawFinishes_iff (hm : 0 < m) {n : ℕ} (hn : m ≤ n) :
    DrawFinishes m n ↔ numContactNodes ≤ m := by
  constructor
  · intro h
    obtain ⟨rest, elected, hrest, hlength, _⟩ := h [] _ rfl
    have hdrawn := (drawn_of_drawContactNodes hm rest (drawn_nil m) hrest).1
    exact hlength ▸ hdrawn.length_le
  · intro hroom draws state hdraws
    obtain ⟨hdrawn, hcount⟩ := drawn_of_rounds hm draws (drawn_nil m) hdraws
    simp only [List.length_nil, Nat.zero_add] at hcount
    obtain ⟨rest, elected, hrest⟩ := hdrawn.exists_draws state.1 (by omega)
    -- the draws and the rest of them are one run of the loop
    have hwhole : drawContactNodes m (draws ++ rest) numContactNodes [] = .ok elected := by
      rw [drawContactNodes_append draws rest (numContactNodes, []), hdraws]
      exact hrest
    obtain ⟨hall, hlength, _⟩ := drawn_of_drawContactNodes hm _ (drawn_nil m) hwhole
    refine ⟨rest, elected, hrest, by simpa using hlength, hall.1, fun id hid => ?_⟩
    have hrange := hall.2 id hid
    exact ⟨hrange.1, by omega⟩

/-- The positions below the modulus can be elected, and no others. -/
theorem electable_iff (hm : 0 < m) {p : ℕ} : Electable m p ↔ numContactNodes ≤ m ∧ p < m := by
  constructor
  · rintro ⟨draws, elected, hdraws, hmem⟩
    obtain ⟨hdrawn, hlength, _⟩ := drawn_of_drawContactNodes hm draws (drawn_nil m) hdraws
    have hrange := hdrawn.2 p hmem
    have hle := hdrawn.length_le
    simp only [List.length_nil, Nat.zero_add] at hlength
    exact ⟨by omega, by omega⟩
  · rintro ⟨hroom, hp⟩
    have hmod : Int.tmod p m = p := by
      exact_mod_cast Int.tmod_eq_of_lt (Int.natCast_nonneg p) (by exact_mod_cast hp)
    have hdrawn : Drawn m [(p : ℤ)] :=
      ⟨List.nodup_singleton _, by simpa using hp⟩
    obtain ⟨draws, elected, hdraws⟩ := hdrawn.exists_draws 2 (by
      simp only [List.length_singleton]
      exact hroom)
    refine ⟨p :: draws, elected, ?_, ?_⟩
    · rw [numContactNodes, drawContactNodes, if_neg (by omega), hmod, if_neg (by simp)]
      exact hdraws
    · obtain ⟨_, _, hsub⟩ := drawn_of_drawContactNodes hm draws hdrawn hdraws
      exact hsub (List.mem_singleton_self _)

end Loop

/-- In an election at any level, in a ring with enough peers, the modulus is positive,
the draw can be finished if and only if there are four peers, and the last peer is
never elected. So the draw is not open to all. -/
theorem contactDraw_excludes_last {table : NodeTable} (htable : table.HasRings) {level : ℕ}
    {ring : Ring} (hring : table.tables[level]? = some ring)
    (hsize : numContactNodes ≤ ring.peerList.length) :
    ∃ numPeers, table.getPeerListSize level = .ok numPeers ∧ 0 < numPeers ∧
      (DrawFinishes numPeers ring.peerList.length ↔ numContactNodes < ring.peerList.length) ∧
      (∀ p < ring.peerList.length, Electable numPeers p ↔
        numContactNodes < ring.peerList.length ∧ p + 1 < ring.peerList.length) ∧
      ¬ DrawOpen numPeers ring.peerList.length := by
  have hthree : numContactNodes = 3 := rfl
  obtain ⟨m, hm⟩ : ∃ m, ring.peerList.length = m + 1 := ⟨ring.peerList.length - 1, by omega⟩
  have hpeers : table.getPeerListSize level = .ok (m : ℤ) := by
    rw [htable.getPeerListSize_of_some hring, hm]
    simp
  have hlast : ¬ Electable m m := fun h => lt_irrefl m ((electable_iff (by omega)).mp h).2
  refine ⟨m, hpeers, by omega, ?_, ?_, ?_⟩
  · rw [drawFinishes_iff (by omega) (by omega), hm, Nat.lt_succ_iff]
  · intro p _
    rw [electable_iff (by omega), hm, Nat.lt_succ_iff, Nat.succ_lt_succ_iff]
  · exact fun h => hlast (h.open_to_all m (by omega))

theorem contactDraw_excludes_last_four :
    ∃ numPeers, (districtTable 4 4 (firstRegionId 0)).getPeerListSize 1 = .ok numPeers ∧
      0 < numPeers ∧ (DrawFinishes numPeers 4 ↔ 3 < 4) ∧
      (∀ p < 4, Electable numPeers p ↔ 3 < 4 ∧ p + 1 < 4) ∧ ¬ DrawOpen numPeers 4 :=
  have htable : (districtTable 4 4 (firstRegionId 0)).HasRings := ⟨by decide, by decide⟩
  have hring : (districtTable 4 4 (firstRegionId 0)).tables[1]? = some (districtRing 1 4 4) := by
    decide
  contactDraw_excludes_last htable hring (by decide)

/-- In a ring of three no random values end the draw. -/
theorem contactDraw_three_not_open : ¬ ∀ (table : NodeTable) (level : ℕ) (ring : Ring),
    table.HasRings → table.tables[level]? = some ring →
    numContactNodes ≤ ring.peerList.length →
    ∃ numPeers, table.getPeerListSize level = .ok numPeers ∧
      DrawOpen numPeers ring.peerList.length := by
  intro h
  obtain ⟨numPeers, hpeers, hopen⟩ := h (districtTable 3 3 (firstRegionId 0)) 0 (districtRing 0 3 3)
    ⟨by decide, by decide⟩ (by decide) (by decide)
  have hsize : (districtTable 3 3 (firstRegionId 0)).getPeerListSize 0 = .ok 2 := by decide
  obtain rfl := Except.ok.inj (hpeers.symm.trans hsize)
  exact absurd ((drawFinishes_iff (m := 2) (by omega) (by decide)).mp hopen.finishes) (by decide)

end Hgfrr
