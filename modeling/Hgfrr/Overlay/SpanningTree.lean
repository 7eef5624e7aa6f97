import Hgfrr.Overlay.Ring

/-!
# One start spans the ring

A single member starts an agreed ring. The messages that follow reach every
other member once, over a chain no longer than the number of binary digits of
its order.
-/

variable {α : Type*} [DecidableEq α]

namespace Overlay

variable {ov : Overlay α} {level : ℕ} {peers : List α}

/-- Messages carrying the length of the chain that led to them: inside the ring
the receiver sits `order` seats after seat `s`, and the chain is no longer than
the number of binary digits of `order`. -/
def OnTree (level : ℕ) (peers : List α) (s : ℕ) (message : Hop α × ℕ) : Prop :=
  ∃ y l order descend, message.1 = .ring y l order descend ∧ 0 < order ∧
    (l < level ∨ l = level ∧ order < peers.length ∧ seat peers (s + order) = some y ∧
      message.2 ≤ Nat.log2 order + 1)

theorem Agreed.onTree_of_mem_sends (hagreed : ov.Agreed level peers) {s order hops : ℕ} {x : α}
    (hx : seat peers (s + order) = some x) (hhops : order = 0 ∧ hops = 0 ∨
      0 < order ∧ hops ≤ Nat.log2 order + 1) {hop : Hop α}
    (h : hop ∈ ov.sends 2 ⟨x, level, order⟩) : OnTree level peers s (hop, hops + 1) := by
  obtain ⟨i, y, horder, hsize, hy, rfl⟩ := (hagreed.mem_sends le_rfl hx).mp h
  have hpow := Nat.two_pow_pos i
  refine ⟨y, level, _, _, rfl, by omega, Or.inr ⟨rfl, hsize, by rw [← add_assoc]; exact hy, ?_⟩⟩
  rcases hhops with ⟨rfl, rfl⟩ | ⟨hpos, hle⟩
  · omega
  · have hlog := PowerTree.log2_lt_log2_child hpos horder
    simp only
    omega

theorem onTree_of_lower {call : Call α} {s hops : ℕ} {hop : Hop α} (hlevel : call.level < level)
    (h : hop ∈ ov.sends 2 call) : OnTree level peers s (hop, hops) := by
  have hsent := sent_of_mem_sends le_rfl h
  obtain ⟨view, i, y, _, _, _, _, rfl⟩ := (Overlay.mem_sends ov le_rfl).mp h
  exact ⟨y, call.level, _, _, rfl, hsent.1, Or.inl hlevel⟩

theorem Agreed.onTree_of_react (hagreed : ov.Agreed level peers) {s : ℕ}
    {message : Hop α × ℕ} {outs : List (Hop α × ℕ)} (htree : OnTree level peers s message)
    (h : Cascade.Counted ov.React message outs) : ∀ o ∈ outs, OnTree level peers s o := by
  intro o ho
  rcases message with ⟨hop, hops⟩
  obtain ⟨y, l, order, descend, rfl, hpos, hplace⟩ := htree
  obtain ⟨hreact, hcount⟩ := h
  have hmem : o.1 ∈ outs.map Prod.fst := List.mem_map_of_mem ho
  have ho' : o = (o.1, hops + 1) := Prod.ext rfl (hcount o ho)
  rw [outs_of_react_ring hreact] at hmem
  obtain ⟨call, hcall, hsent⟩ := List.mem_flatMap.mp hmem
  rcases mem_calls_ring.mp hcall with rfl | ⟨_, _, hbelow, _⟩
  · rcases hplace with hlower | ⟨rfl, _, hseat, hle⟩
    · exact onTree_of_lower hlower hsent
    · rw [ho']
      exact hagreed.onTree_of_mem_sends hseat (Or.inr ⟨hpos, hle⟩) hsent
  · exact onTree_of_lower (by omega) hsent

/-- A run that begins when `r` starts the ring. -/
structure StarterRun (ov : Overlay α) (level : ℕ) (peers : List α) (r : α)
    (cfg : Cascade.Config (Hop α × ℕ)) : Prop where
  agreed : ov.Agreed level peers
  member : r ∈ peers
  reachable : Cascade.Reachable (Cascade.Counted ov.React)
    ((ov.sends 2 ⟨r, level, 0⟩).map fun hop => (hop, 1) : List (Hop α × ℕ)) cfg

namespace StarterRun

variable {r : α} {cfg : Cascade.Config (Hop α × ℕ)} (h : StarterRun ov level peers r cfg)
include h

theorem onTree {s : ℕ} (hs : seat peers s = some r) :
    (∀ message ∈ cfg.inFlight, OnTree level peers s message) ∧
      ∀ message ∈ cfg.handled, OnTree level peers s message := by
  refine h.reachable.all_messages ?_ fun message outs => h.agreed.onTree_of_react
  intro message hmem
  obtain ⟨hop, hhop, rfl⟩ := List.mem_map.mp (Multiset.mem_coe.mp hmem)
  exact h.agreed.onTree_of_mem_sends (show seat peers (s + 0) = some r from hs)
    (Or.inl ⟨rfl, rfl⟩) hhop

/-- No node but the starter starts the ring, and no member is left out of the
tree: the lower rings do not interfere. -/
theorem mem_callsOf {call : Call α} (hcall : call ∈ ov.callsOf (cfg.map Prod.fst))
    (hlevel : call.level = level) : call.node ∈ peers ∧ 0 < call.order := by
  obtain ⟨s, _, hs⟩ := seat_of_mem h.member
  obtain ⟨hop, hhop, hmem⟩ := Overlay.mem_callsOf.mp hcall
  rw [Cascade.Config.map_handled] at hhop
  obtain ⟨message, hmessage, rfl⟩ := List.mem_map.mp hhop
  obtain ⟨y, l, order, descend, heq, hpos, hplace⟩ := (h.onTree hs).2 message hmessage
  rw [heq] at hmem
  rcases mem_calls_ring.mp hmem with rfl | ⟨_, _, hbelow, _⟩
  · rcases hplace with hlower | ⟨_, _, hseat, _⟩
    · simp only at hlevel
      omega
    · exact ⟨mem_of_seat hseat, hpos⟩
  · omega

theorem ringRun : RingRun ov level peers [⟨r, level, 0⟩] (ov.sends 2 ⟨r, level, 0⟩ : List (Hop α))
    (cfg.map Prod.fst) where
  agreed := h.agreed
  reachable := by
    have hrun := h.reachable.map ov.React Prod.fst (fun _ => True)
      (fun _ _ => trivial) fun m outs _ hstep => ⟨hstep.1, fun _ _ => trivial⟩
    simpa [Function.comp_def] using hrun
  origin_order := by simp
  confined := by
    intro call hcall hlevel
    left
    rcases List.mem_append.mp hcall with hcall | hcall
    · obtain rfl : call = ⟨r, level, 0⟩ := by simpa using hcall
      exact h.member
    · exact (h.mem_callsOf hcall hlevel).1
  first := by simp

theorem count_start :
    ([(⟨r, level, 0⟩ : Call α)] ++ ov.callsOf (cfg.map Prod.fst)).count ⟨r, level, 0⟩ = 1 := by
  have hnone : ⟨r, level, 0⟩ ∉ ov.callsOf (cfg.map Prod.fst) := fun hcall =>
    lt_irrefl 0 (h.mem_callsOf hcall rfl).2
  rw [List.count_append, List.count_eq_zero.mpr hnone, List.count_singleton_self]

theorem only_starter (z : α)
    (hcall : ⟨z, level, 0⟩ ∈ [(⟨r, level, 0⟩ : Call α)] ++ ov.callsOf (cfg.map Prod.fst)) :
    z = r := by
  rcases List.mem_append.mp hcall with hcall | hcall
  · simpa using hcall
  · exact absurd (h.mem_callsOf hcall rfl).2 (lt_irrefl 0)

/-- The starter receives nothing in its ring. -/
theorem starter_receives_none :
    (∀ message ∈ cfg.inFlight, ¬ message.1.To r level) ∧
      ∀ message ∈ cfg.handled, ¬ message.1.To r level := by
  obtain ⟨s, hlt, hs⟩ := seat_of_mem h.member
  have hnever : ∀ message : Hop α × ℕ, OnTree level peers s message → ¬ message.1.To r level := by
    rintro message ⟨y, l, order, descend, heq, hpos, hplace⟩ hto
    rw [heq] at hto
    obtain ⟨rfl, rfl⟩ := hto
    rcases hplace with hlower | ⟨_, hsize, hseat, _⟩
    · exact lt_irrefl _ hlower
    · have hmod := seat_inj h.agreed.nodup hseat hs
      have hdvd : order % peers.length = 0 := by
        have := Nat.ModEq.add_left_cancel' s (show s + order ≡ s + 0 [MOD peers.length] from hmod)
        simpa [Nat.ModEq] using this
      rw [Nat.mod_eq_of_lt hsize] at hdvd
      omega
  exact ⟨fun message hm => hnever message ((h.onTree hs).1 message hm),
    fun message hm => hnever message ((h.onTree hs).2 message hm)⟩

/-- No member handles two messages. -/
theorem handles_le_one {y : α} (hy : y ∈ peers) :
    (cfg.map Prod.fst).handled.countP (Hop.To y level) ≤ 1 := by
  rw [← h.count_start]
  exact h.ringRun.countP_to_le h.member (fun z _ => h.only_starter z) hy

/-- When nothing of the ring is in flight, every other member has handled one
message. -/
theorem handles_one (hquiet : ∀ message ∈ cfg.inFlight, ¬ message.1.InRing level) {y : α}
    (hy : y ∈ peers) (hne : y ≠ r) :
    (cfg.map Prod.fst).handled.countP (Hop.To y level) = 1 := by
  have hquiet' : ∀ hop ∈ (cfg.map Prod.fst).inFlight, ¬ hop.InRing level := by
    intro hop hhop
    obtain ⟨message, hmessage, rfl⟩ := Multiset.mem_map.mp hhop
    exact hquiet message hmessage
  refine le_antisymm (h.handles_le_one hy) ?_
  rcases h.ringRun.covered hquiet' (by simp) h.member hy with heq | ⟨order, descend, hmem⟩
  · exact absurd heq hne
  · exact List.countP_pos_iff.mpr ⟨_, hmem, decide_eq_true ⟨rfl, rfl⟩⟩

end StarterRun

end Overlay
