import Mathlib

/-!
# Nodes that exchange datagrams

Nodes originate tagged payloads, carry out sends, and take in datagrams. The
network is unreliable: a datagram that was ever sent may arrive at any node,
any number of times, in any order, or never.

If every step of a node passes on the tag and the payload of what it handles,
and no tag is originated twice, all that is ever handled under a tag is the
payload it was originated with.
-/

namespace Datagrams

variable {ι S C W K D : Type*}

/-- The effects of one step of a node: its next state, the sends that it still
has to carry out, the datagrams it has put on the wire, and the tagged payloads
it has handled. -/
structure Outcome (S C W K D : Type*) where
  state : S
  calls : List C
  datagrams : List W
  handled : List (K × D)

/-- What a node may do when it originates a payload, carries out a send, and
takes in a datagram. -/
structure Behaviour (S C W K D : Type*) where
  originate : S → K × D → Outcome S C W K D → Prop
  perform : S → C → Outcome S C W K D → Prop
  receive : S → W → Outcome S C W K D → Prop

/-- All nodes, what they still have to send, every datagram ever sent, and the
history of payloads. -/
structure Situation (ι S C W K D : Type*) where
  node : ι → S
  pending : Multiset (ι × C)
  wire : List W
  originated : List (K × D)
  handled : List (ι × K × D)

namespace Situation

def start (node : ι → S) : Situation ι S C W K D := ⟨node, 0, [], [], []⟩

/-- The situation after a step of one node. -/
def after [DecidableEq ι] (s : Situation ι S C W K D) (x : ι) (outcome : Outcome S C W K D) :
    Situation ι S C W K D where
  node := Function.update s.node x outcome.state
  pending := (outcome.calls.map (x, ·) : List (ι × C)) + s.pending
  wire := outcome.datagrams ++ s.wire
  originated := s.originated
  handled := outcome.handled.map (x, ·) ++ s.handled

end Situation

section Runs

variable [DecidableEq ι] (nodes : Behaviour S C W K D) (members : Set ι)

/-- Some member takes a step. -/
inductive Step (s : Situation ι S C W K D) : Situation ι S C W K D → Prop
  | originate {x payload outcome} (hx : x ∈ members)
      (hstep : nodes.originate (s.node x) payload outcome) :
      Step s { s.after x outcome with originated := payload :: s.originated }
  | perform {x call rest outcome} (hx : x ∈ members) (hpending : s.pending = (x, call) ::ₘ rest)
      (hstep : nodes.perform (s.node x) call outcome) :
      Step s ({ s with pending := rest }.after x outcome)
  | receive {x datagram outcome} (hx : x ∈ members) (hwire : datagram ∈ s.wire)
      (hstep : nodes.receive (s.node x) datagram outcome) : Step s (s.after x outcome)

/-- Situations that come about when the nodes begin in given states. -/
def Reachable (node : ι → S) : Situation ι S C W K D → Prop :=
  Relation.ReflTransGen (Step nodes members) (Situation.start node)

end Runs

section Extend

variable [DecidableEq ι] {nodes : Behaviour S C W K D} {members : Set ι} {node : ι → S}
  {s : Situation ι S C W K D} (hrun : Reachable nodes members node s)
include hrun

theorem Reachable.originate {x : ι} (hx : x ∈ members) (payload : K × D)
    (outcome : Outcome S C W K D) (hstep : nodes.originate (s.node x) payload outcome) :
    Reachable nodes members node
      { s.after x outcome with originated := payload :: s.originated } :=
  hrun.tail (.originate hx hstep)

theorem Reachable.perform {x : ι} (hx : x ∈ members) (call : C) (rest : Multiset (ι × C))
    (outcome : Outcome S C W K D) (hpending : s.pending = (x, call) ::ₘ rest)
    (hstep : nodes.perform (s.node x) call outcome) :
    Reachable nodes members node ({ s with pending := rest }.after x outcome) :=
  hrun.tail (.perform hx hpending hstep)

theorem Reachable.receive {x : ι} (hx : x ∈ members) (datagram : W) (outcome : Outcome S C W K D)
    (hwire : datagram ∈ s.wire) (hstep : nodes.receive (s.node x) datagram outcome) :
    Reachable nodes members node (s.after x outcome) :=
  hrun.tail (.receive hx hwire hstep)

end Extend

/-- Reasons why payloads keep their tags: every node numbers the tags it
originates, and each send and each datagram stands for one tagged payload,
which the steps pass on. -/
structure Provenance (nodes : Behaviour S C W K D) (members : Set ι) where
  /-- What every state of a node satisfies. -/
  Sound : ι → S → Prop
  /-- How many tags a node has originated, or more. -/
  count : S → ℕ
  tag : ι → ℕ → K
  tag_inj : ∀ x ∈ members, ∀ y ∈ members, ∀ m n, tag x m = tag y n → x = y ∧ m = n
  Carries : C → K × D → Prop
  Spells : W → K × D → Prop
  originate : ∀ x ∈ members, ∀ s payload outcome, Sound x s → nodes.originate s payload outcome →
    payload.1 = tag x (count s) ∧ Sound x outcome.state ∧ count s < count outcome.state ∧
      (∀ call ∈ outcome.calls, Carries call payload) ∧
      (∀ datagram ∈ outcome.datagrams, Spells datagram payload) ∧ outcome.handled = []
  perform : ∀ x ∈ members, ∀ s call payload outcome, Sound x s → Carries call payload →
    nodes.perform s call outcome →
    Sound x outcome.state ∧ count s ≤ count outcome.state ∧
      (∀ call ∈ outcome.calls, Carries call payload) ∧
      (∀ datagram ∈ outcome.datagrams, Spells datagram payload) ∧
      ∀ handled ∈ outcome.handled, handled = payload
  receive : ∀ x ∈ members, ∀ s datagram payload outcome, Sound x s → Spells datagram payload →
    nodes.receive s datagram outcome →
    Sound x outcome.state ∧ count s ≤ count outcome.state ∧
      (∀ call ∈ outcome.calls, Carries call payload) ∧
      (∀ datagram ∈ outcome.datagrams, Spells datagram payload) ∧
      ∀ handled ∈ outcome.handled, handled = payload

namespace Provenance

variable {nodes : Behaviour S C W K D} {members : Set ι} (provenance : Provenance nodes members)

/-- Everything in a situation goes back to a payload that was originated, and
tags are used once. -/
structure Invariant (s : Situation ι S C W K D) : Prop where
  sound : ∀ x ∈ members, provenance.Sound x (s.node x)
  pending : ∀ entry ∈ s.pending, ∃ payload ∈ s.originated, provenance.Carries entry.2 payload
  wire : ∀ datagram ∈ s.wire, ∃ payload ∈ s.originated, provenance.Spells datagram payload
  handled : ∀ entry ∈ s.handled, entry.2 ∈ s.originated
  numbered : ∀ payload ∈ s.originated, ∃ x ∈ members, ∃ n < provenance.count (s.node x),
    payload.1 = provenance.tag x n
  nodup : (s.originated.map Prod.fst).Nodup

variable {provenance}

theorem invariant_start {node : ι → S} (h : ∀ x ∈ members, provenance.Sound x (node x)) :
    provenance.Invariant (Situation.start node) :=
  ⟨h, by simp [Situation.start], by simp [Situation.start], by simp [Situation.start],
    by simp [Situation.start], by simp [Situation.start]⟩

variable [DecidableEq ι] {s : Situation ι S C W K D}

/-- A step that passes on an originated payload keeps the invariant. -/
theorem Invariant.after (h : provenance.Invariant s) (x : ι) (outcome : Outcome S C W K D)
    {payload : K × D} (hpayload : payload ∈ s.originated)
    (hsound : provenance.Sound x outcome.state)
    (hcount : provenance.count (s.node x) ≤ provenance.count outcome.state)
    (hcalls : ∀ call ∈ outcome.calls, provenance.Carries call payload)
    (hdatagrams : ∀ datagram ∈ outcome.datagrams, provenance.Spells datagram payload)
    (hhandled : ∀ handled ∈ outcome.handled, handled = payload) :
    provenance.Invariant (s.after x outcome) where
  sound y hy := by
    by_cases heq : y = x
    · subst heq
      simpa [Situation.after] using hsound
    · simpa [Situation.after, heq] using h.sound y hy
  pending entry hentry := by
    rcases Multiset.mem_add.mp hentry with hnew | hold
    · obtain ⟨call, hcall, rfl⟩ := List.mem_map.mp (Multiset.mem_coe.mp hnew)
      exact ⟨payload, hpayload, hcalls call hcall⟩
    · exact h.pending entry hold
  wire datagram hdatagram := by
    rcases List.mem_append.mp hdatagram with hnew | hold
    · exact ⟨payload, hpayload, hdatagrams datagram hnew⟩
    · exact h.wire datagram hold
  handled entry hentry := by
    rcases List.mem_append.mp hentry with hnew | hold
    · obtain ⟨handled, hmem, rfl⟩ := List.mem_map.mp hnew
      rw [hhandled handled hmem]
      exact hpayload
    · exact h.handled entry hold
  numbered p hp := by
    obtain ⟨y, hy, n, hn, htag⟩ := h.numbered p hp
    refine ⟨y, hy, n, ?_, htag⟩
    by_cases heq : y = x
    · subst heq
      simpa [Situation.after] using hn.trans_le hcount
    · simpa [Situation.after, heq] using hn
  nodup := h.nodup

/-- A new tag may be originated. -/
theorem Invariant.originate (h : provenance.Invariant s) {x : ι} (hx : x ∈ members)
    {payload : K × D} {outcome : Outcome S C W K D}
    (hstep : nodes.originate (s.node x) payload outcome) :
    provenance.Invariant { s.after x outcome with originated := payload :: s.originated } := by
  obtain ⟨htag, hsound, hcount, hcalls, hdatagrams, hhandled⟩ :=
    provenance.originate x hx _ _ _ (h.sound x hx) hstep
  have hnew : payload.1 ∉ s.originated.map Prod.fst := by
    intro hmem
    obtain ⟨other, hother, heq⟩ := List.mem_map.mp hmem
    obtain ⟨y, hy, n, hn, hothertag⟩ := h.numbered other hother
    obtain ⟨rfl, rfl⟩ := provenance.tag_inj y hy x hx n (provenance.count (s.node x))
      (hothertag.symm.trans (heq.trans htag))
    exact lt_irrefl _ hn
  have hprior : provenance.Invariant { s with
      node := Function.update s.node x outcome.state, originated := payload :: s.originated } := by
    refine ⟨fun y hy => ?_, fun entry hentry => ?_, fun datagram hdatagram => ?_,
      fun entry hentry => ?_, ?_, List.nodup_cons.mpr ⟨hnew, h.nodup⟩⟩
    · by_cases heq : y = x
      · subst heq
        simpa using hsound
      · simpa [heq] using h.sound y hy
    · obtain ⟨p, hp, hcarries⟩ := h.pending entry hentry
      exact ⟨p, List.mem_cons_of_mem _ hp, hcarries⟩
    · obtain ⟨p, hp, hspells⟩ := h.wire datagram hdatagram
      exact ⟨p, List.mem_cons_of_mem _ hp, hspells⟩
    · exact List.mem_cons_of_mem _ (h.handled entry hentry)
    · intro p hp
      rcases List.mem_cons.mp hp with rfl | hp
      · exact ⟨x, hx, _, by simpa using hcount, htag⟩
      · obtain ⟨y, hy, n, hn, htag'⟩ := h.numbered p hp
        refine ⟨y, hy, n, ?_, htag'⟩
        by_cases heq : y = x
        · subst heq
          simpa using hn.trans hcount
        · simpa [heq] using hn
  have hafter := hprior.after x outcome List.mem_cons_self hsound (by simp) hcalls hdatagrams
    (by simp [hhandled])
  simpa [Situation.after] using hafter

theorem Invariant.step (h : provenance.Invariant s) {next : Situation ι S C W K D}
    (hstep : Step nodes members s next) : provenance.Invariant next := by
  cases hstep with
  | originate hx hstep => exact h.originate hx hstep
  | @perform x call rest outcome hx hpending hstep =>
      obtain ⟨payload, hpayload, hcarries⟩ := h.pending (x, call) (by simp [hpending])
      obtain ⟨hsound, hcount, hcalls, hdatagrams, hhandled⟩ :=
        provenance.perform x hx _ _ _ _ (h.sound x hx) hcarries hstep
      have hprior : provenance.Invariant { s with pending := rest } :=
        ⟨h.sound, fun entry hentry => h.pending entry (by simp [hpending, hentry]), h.wire,
          h.handled, h.numbered, h.nodup⟩
      exact hprior.after x outcome hpayload hsound hcount hcalls hdatagrams hhandled
  | @receive x datagram outcome hx hwire hstep =>
      obtain ⟨payload, hpayload, hspells⟩ := h.wire datagram hwire
      obtain ⟨hsound, hcount, hcalls, hdatagrams, hhandled⟩ :=
        provenance.receive x hx _ _ _ _ (h.sound x hx) hspells hstep
      exact h.after x outcome hpayload hsound hcount hcalls hdatagrams hhandled

theorem invariant_of_reachable {node : ι → S} (hnode : ∀ x ∈ members, provenance.Sound x (node x))
    (hrun : Reachable nodes members node s) : provenance.Invariant s := by
  induction hrun with
  | refl => exact invariant_start hnode
  | tail _ hstep ih => exact ih.step hstep

/-- Whatever is handled under a tag is the payload that was originated under
it, and the only one. -/
theorem handled_is_originated (provenance : Provenance nodes members) {node : ι → S}
    (hnode : ∀ x ∈ members, provenance.Sound x (node x))
    (hrun : Reachable nodes members node s) {x : ι} {k : K} {d : D}
    (hhandled : (x, k, d) ∈ s.handled) :
    (k, d) ∈ s.originated ∧ ∀ d', (k, d') ∈ s.originated → d' = d := by
  have hinv := invariant_of_reachable hnode hrun
  have hmem : (k, d) ∈ s.originated := hinv.handled _ hhandled
  refine ⟨hmem, fun d' hmem' => ?_⟩
  have heq := List.inj_on_of_nodup_map hinv.nodup hmem' hmem rfl
  exact congrArg Prod.snd heq

end Provenance

end Datagrams
