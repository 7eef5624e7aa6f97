import Hgfrr.Model.App

/-!
# Tables as they are built

What holds of the rings of any node, whatever its id is: there are at most six
of them, and the id of every peer is long enough to have a segment for each
level.
-/

namespace Hgfrr

section Maps

variable {nodes set : List Node} {node : Node}

theorem mem_of_mem_iterate {order : MapOrder} (h : node ∈ order.iterate nodes) : node ∈ nodes := by
  obtain ⟨key, _, hfind⟩ := List.mem_filterMap.mp h
  exact List.mem_of_find?_eq_some hfind

theorem mem_of_mem_insertNode {other : Node} (h : node ∈ insertNode set other) :
    node ∈ set ∨ node = other := by
  unfold insertNode at h
  split at h
  next => exact Or.inl h
  next => simpa using h

theorem mem_of_mem_insertNodes (h : node ∈ nodes.foldl insertNode set) :
    node ∈ set ∨ node ∈ nodes := by
  induction nodes generalizing set with
  | nil => exact Or.inl h
  | cons other nodes ih =>
      rcases ih h with hmem | hmem
      · rcases mem_of_mem_insertNode hmem with hset | rfl
        · exact Or.inl hset
        · exact Or.inr (by simp)
      · exact Or.inr (List.mem_cons_of_mem _ hmem)

end Maps

namespace TableBuilder

variable {builder : TableBuilder} {ring : Ring} {next : List Node}

/-- Nodes are made with the id they are asked for. -/
def NamesNodes (builder : TableBuilder) : Prop :=
  ∀ id node, builder.mkNode id = .ok (some node) → node.id = id

/-- The peers of the lowest ring are the own id up to its last segment, and a number. -/
theorem mem_peerLevel (hnames : builder.NamesNodes) {peers contacts : ℕ}
    (h : builder.peerLevel peers contacts = .ok (ring, next)) :
    idSingleStart ≤ builder.selfId.length ∧
      (∀ node ∈ ring.peerList, ∃ i < peers,
        node.id = builder.selfId.take idSingleStart ++ setw idSingleLen i) ∧
      ∀ node ∈ next, node ∈ ring.peerList := by
  unfold peerLevel at h
  obtain ⟨idInDist, hid, h⟩ := Except.bind_eq_ok.mp h
  obtain ⟨made, hmade, h⟩ := Except.bind_eq_ok.mp h
  obtain ⟨rfl, rfl⟩ := Prod.mk.inj (Except.ok.inj h)
  have hlength : idSingleStart ≤ builder.selfId.length := by
    by_contra hlong
    rw [substr, if_neg hlong] at hid
    exact absurd hid (by simp)
  refine ⟨hlength, ?_, ?_⟩
  · intro node hnode
    obtain ⟨⟨i, node⟩, hentry, rfl⟩ := List.mem_map.mp hnode
    obtain ⟨entry, hmem, hsome⟩ := List.mem_filterMap.mp hentry
    obtain ⟨j, hj, hmk⟩ := Except.mapM_eq_ok hmade hmem
    obtain ⟨nodeIdUntilDist, huntil, hmk⟩ := Except.bind_eq_ok.mp hmk
    obtain ⟨found, hfound, hentry⟩ := Except.bind_eq_ok.mp hmk
    rw [substr_of_le (Nat.zero_le _), List.drop_zero] at huntil
    obtain rfl := Except.ok.inj huntil
    obtain rfl : entry = some (i, node) := hsome
    cases found with
    | none => exact absurd (Except.ok.inj hentry) (by simp)
    | some other =>
        obtain ⟨rfl, rfl⟩ : j = i ∧ other = node := by simpa using Except.ok.inj hentry
        exact ⟨j, List.mem_range.mp hj, hnames _ _ hfound⟩
  · intro node hnode
    obtain ⟨entry, hentry, rfl⟩ := List.mem_map.mp hnode
    exact List.mem_map_of_mem (List.mem_of_mem_filter hentry)

/-- The peers of a contact level are the own id up to a place, a number, and the rest
of the id of a contact node below. -/
theorem mem_contactLevel (hnames : builder.NamesNodes) {ringLevel regions limit upTo width : ℕ}
    {suffix : Str → Except Fault Str} {list before : List Node}
    (h : builder.contactLevel ringLevel regions limit upTo width suffix list before =
      .ok (ring, next)) :
    (∀ node ∈ ring.peerList, ∃ i < regions, ∃ contact ∈ list, ∃ rest,
        suffix contact.id = .ok rest ∧
          node.id = builder.selfId.take upTo ++ setw width i ++ rest) ∧
      ∀ node ∈ next, node ∈ before ∨ node ∈ ring.peerList := by
  unfold contactLevel at h
  obtain ⟨nodeIdUntil, huntil, hrows⟩ := Except.bind_eq_ok.mp h
  obtain ⟨made, hmade, hring⟩ := Except.bind_eq_ok.mp hrows
  rw [substr_of_le (Nat.zero_le _), List.drop_zero] at huntil
  obtain rfl := Except.ok.inj huntil
  obtain ⟨rfl, rfl⟩ := Prod.mk.inj (Except.ok.inj hring)
  refine ⟨?_, ?_⟩
  · intro node hnode
    obtain ⟨found, hmem, hsome⟩ := List.mem_filterMap.mp hnode
    obtain rfl : found = some node := hsome
    obtain ⟨row, hrow, hmem⟩ := List.mem_flatten.mp hmem
    obtain ⟨i, hi, hrow⟩ := Except.mapM_eq_ok hmade hrow
    obtain ⟨contact, hcontact, hmk⟩ := Except.mapM_eq_ok hrow hmem
    obtain ⟨rest, hrest, hmk⟩ := Except.bind_eq_ok.mp hmk
    exact ⟨i, List.mem_range.mp hi, contact, hcontact, rest, hrest, hnames _ _ hmk⟩
  · intro node hnode
    rcases mem_of_mem_insertNodes hnode with hbefore | htake
    · exact Or.inl hbefore
    · exact Or.inr (List.mem_of_mem_take htake)

end TableBuilder

/-- An id that has a segment for every level. -/
def BaseApp.LongId (node : Node) : Prop := idSingleStart ≤ node.id.length

open BaseApp (LongId) in
/-- A contact level makes long ids from long ids. -/
theorem TableBuilder.longId_contactLevel {builder : TableBuilder} (hnames : builder.NamesNodes)
    {ringLevel regions limit upTo width from' : ℕ}
    (hself : upTo ≤ builder.selfId.length) (hwidth : upTo + width = from')
    (hfrom : from' ≤ idSingleStart) {suffix : Str → Except Fault Str}
    (hsuffix : ∀ id rest, suffix id = .ok rest → idSingleStart ≤ id.length →
      idSingleStart - from' ≤ rest.length) {list before next : List Node} {ring : Ring}
    (hlist : ∀ node ∈ list, LongId node) (hbefore : ∀ node ∈ before, LongId node)
    (h : builder.contactLevel ringLevel regions limit upTo width suffix list before =
      .ok (ring, next)) :
    (∀ node ∈ ring.peerList, LongId node) ∧ ∀ node ∈ next, LongId node := by
  obtain ⟨hpeers, hnext⟩ := mem_contactLevel hnames h
  have hlong : ∀ node ∈ ring.peerList, LongId node := by
    intro node hnode
    obtain ⟨i, _, contact, hcontact, rest, hrest, hid⟩ := hpeers node hnode
    have hlength := hsuffix _ _ hrest (hlist contact hcontact)
    have hnumber : width ≤ (setw width i).length := Decimal.width_le_length_padded width i
    have htake : (builder.selfId.take upTo).length = upTo := by simpa using hself
    simp only [LongId, hid, List.length_append, htake]
    omega
  refine ⟨hlong, ?_⟩
  intro node hnode
  rcases hnext node hnode with hold | hpeer
  · exact hbefore node hold
  · exact hlong node hpeer

namespace BaseApp

variable {p : Topology} {startingPortNumber : ℕ} {order : MapOrder} {selfId : Str}
  {rings : List Ring}

theorem builder_namesNodes : (builder p startingPortNumber order selfId).NamesNodes := by
  intro id node h
  simp only [builder, Except.map] at h
  split at h
  next => exact absurd h (by simp)
  next =>
    obtain rfl := Option.some.inj (Except.ok.inj h)
    rfl

/-- What each level keeps of the contact nodes below, the climb keeps of all peers. -/
theorem mem_climb {good : Node → Prop}
    {levels : List (List Node → Except Fault (Ring × List Node))}
    (hlevels : ∀ level ∈ levels, ∀ list ring next, (∀ node ∈ list, good node) →
      level list = .ok (ring, next) →
        (∀ node ∈ ring.peerList, good node) ∧ ∀ node ∈ next, good node)
    {list : List Node} (hlist : ∀ node ∈ list, good node)
    (h : climb p startingPortNumber order selfId levels list = .ok rings) :
    rings.length ≤ levels.length ∧ ∀ ring ∈ rings, ∀ node ∈ ring.peerList, good node := by
  induction levels generalizing list rings with
  | nil =>
      obtain rfl := Except.ok.inj h
      simp
  | cons level levels ih =>
      have hrest := fun level hlevel => hlevels level (List.mem_cons_of_mem _ hlevel)
      unfold climb at h
      split at h
      next =>
        obtain ⟨⟨ring, next⟩, hring, h⟩ := Except.bind_eq_ok.mp h
        obtain ⟨above, habove, h⟩ := Except.bind_eq_ok.mp h
        obtain rfl := Except.ok.inj h
        obtain ⟨hpeers, hnext⟩ := hlevels level (by simp) list ring next hlist hring
        obtain ⟨hlength, hgood⟩ := ih hrest (fun node hnode =>
          hnext node (mem_of_mem_iterate hnode)) habove
        refine ⟨by simpa using hlength, ?_⟩
        intro other hother
        rcases List.mem_cons.mp hother with rfl | hother
        · exact hpeers
        · exact hgood other hother
      next =>
        obtain ⟨hlength, hgood⟩ := ih hrest hlist h
        exact ⟨by simp only [List.length_cons]; omega, hgood⟩

theorem length_levelsInUse (p : Topology) (startingPortNumber : ℕ) (order : MapOrder)
    (selfId : Str) : (levelsInUse p startingPortNumber order selfId).length ≤ 5 := by
  unfold levelsInUse
  split_ifs <;> simp

/-- Each level makes long ids from long ids. -/
theorem longId_levelsInUse (hself : idSingleStart ≤ selfId.length)
    {level : List Node → Except Fault (Ring × List Node)}
    (hlevel : level ∈ levelsInUse p startingPortNumber order selfId) {list next : List Node}
    {ring : Ring} (hlist : ∀ node ∈ list, LongId node) (h : level list = .ok (ring, next)) :
    (∀ node ∈ ring.peerList, LongId node) ∧ ∀ node ∈ next, LongId node := by
  have hall : level ∈ [distLevel p startingPortNumber order selfId,
      cityLevel p startingPortNumber order selfId, stateLevel p startingPortNumber order selfId,
      countryLevel p startingPortNumber order selfId,
      continentLevel p startingPortNumber order selfId] := by
    unfold levelsInUse at hlevel
    split_ifs at hlevel <;> simp at hlevel ⊢ <;> tauto
  have hfrom : ∀ {from'}, from' ≤ idSingleStart → ∀ id rest, substrFrom id from' = .ok rest →
      idSingleStart ≤ id.length → idSingleStart - from' ≤ rest.length := by
    intro from' _ id rest hrest hlong
    rw [length_of_substrFrom hrest]
    omega
  simp only [List.mem_cons, List.not_mem_nil, or_false] at hall
  rcases hall with rfl | rfl | rfl | rfl | rfl
  · exact TableBuilder.longId_contactLevel builder_namesNodes (le_trans (by decide) hself)
      (by decide : idDistrictStart + idDistrictLen = idSingleStart) le_rfl
      (fun _ _ _ _ => by simp) hlist (by simp) h
  · exact TableBuilder.longId_contactLevel builder_namesNodes (le_trans (by decide) hself) rfl
      (by decide) (hfrom (by decide)) hlist (by simp) h
  · exact TableBuilder.longId_contactLevel builder_namesNodes (le_trans (by decide) hself) rfl
      (by decide) (hfrom (by decide)) hlist (by simp) h
  · exact TableBuilder.longId_contactLevel builder_namesNodes (le_trans (by decide) hself) rfl
      (by decide) (hfrom (by decide)) hlist (by simp) h
  · exact TableBuilder.longId_contactLevel builder_namesNodes (le_trans (by decide) hself) rfl
      (by decide) (hfrom (by decide)) hlist (by simp) h

end BaseApp

/-- The tables of a node as they are built: a few rings of nodes whose ids have a
segment for each level. -/
structure NodeTable.Built (selfId : Str) (rings : List Ring) : Prop where
  rings_pos : 0 < rings.length
  rings_le : rings.length ≤ 6
  long_self : idSingleStart ≤ selfId.length
  long_peers : ∀ ring ∈ rings, ∀ node ∈ ring.peerList, idSingleStart ≤ node.id.length

theorem BaseApp.built_of_formStructure {p : Topology} {startingPortNumber : ℕ} {order : MapOrder}
    {selfId : Str} {rings : List Ring}
    (h : BaseApp.formStructure p startingPortNumber order selfId = .ok rings) :
    NodeTable.Built selfId rings := by
  obtain ⟨⟨ring, list⟩, hring, h⟩ := Except.bind_eq_ok.mp h
  obtain ⟨above, habove, h⟩ := Except.bind_eq_ok.mp h
  obtain rfl := Except.ok.inj h
  obtain ⟨hself, hpeers, hlist⟩ := TableBuilder.mem_peerLevel builder_namesNodes hring
  change idSingleStart ≤ selfId.length at hself
  have hlong : ∀ node ∈ ring.peerList, LongId node := by
    intro node hnode
    obtain ⟨i, _, hid⟩ := hpeers node hnode
    have htake : (selfId.take idSingleStart).length = idSingleStart := by simpa using hself
    simp only [LongId, hid, List.length_append, builder, htake]
    omega
  obtain ⟨hlength, hgood⟩ := mem_climb
    (fun level hlevel list ring next => longId_levelsInUse hself hlevel)
    (fun node hnode => hlong node (hlist node hnode)) habove
  refine ⟨by simp, ?_, hself, ?_⟩
  · have := length_levelsInUse p startingPortNumber order selfId
    simp only [List.length_cons]
    omega
  · intro other hother
    rcases List.mem_cons.mp hother with rfl | hother
    · exact hlong
    · exact hgood other hother

end Hgfrr
