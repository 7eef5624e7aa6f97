import Mathlib

/-!
# Nodes that exchange letters

A node begins a task, or takes in a letter addressed to it, and then runs to
the end of what it does about it: it has a new state, has posted letters, and
has caused events. Letters in flight are delivered in any order. The network may
lose a letter and, if its rules say so, deliver copies of it.
-/

namespace Mail

variable {ι S T W E : Type*}

/-- What a node has done by the end of one step. -/
structure Outcome (S W E : Type*) where
  state : S
  letters : List W
  events : List E

/-- What a node may do about a task, and about a letter. -/
structure Behaviour (S T W E : Type*) where
  begins : S → T → Outcome S W E → Prop
  receives : S → W → Outcome S W E → Prop

/-- Who takes part, whom a letter may be delivered to, in which states of the
receiver it may arrive, and whether there are copies of it. -/
structure Rules (ι S W : Type*) where
  members : Set ι
  addressed : W → ι → Prop
  admits : S → W → Prop
  duplicates : Prop

/-- All nodes, the letters in flight, and the history of letters, tasks and
events. -/
structure Situation (ι S T W E : Type*) where
  node : ι → S
  flight : Multiset W
  sent : Multiset W
  begun : List (ι × T)
  events : List (ι × E)

namespace Situation

def start (node : ι → S) : Situation ι S T W E := ⟨node, 0, 0, [], []⟩

/-- The situation after a step of one node. -/
@[simps]
def after [DecidableEq ι] (s : Situation ι S T W E) (x : ι) (outcome : Outcome S W E) :
    Situation ι S T W E where
  node := Function.update s.node x outcome.state
  flight := (outcome.letters : Multiset W) + s.flight
  sent := (outcome.letters : Multiset W) + s.sent
  begun := s.begun
  events := outcome.events.map (x, ·) ++ s.events

/-- The situation when other letters are in flight. -/
@[simps]
def withFlight (s : Situation ι S T W E) (flight : Multiset W) : Situation ι S T W E where
  node := s.node
  flight := flight
  sent := s.sent
  begun := s.begun
  events := s.events

/-- The situation after a task has been taken up. -/
@[simps]
def noting (s : Situation ι S T W E) (x : ι) (task : T) : Situation ι S T W E where
  node := s.node
  flight := s.flight
  sent := s.sent
  begun := (x, task) :: s.begun
  events := s.events

end Situation

section Runs

variable [DecidableEq ι] (nodes : Behaviour S T W E) (rules : Rules ι S W)

/-- Some member takes a step, or the network loses or copies a letter. -/
inductive Step (s : Situation ι S T W E) : Situation ι S T W E → Prop
  | begin {x task outcome} (hx : x ∈ rules.members)
      (hstep : nodes.begins (s.node x) task outcome) : Step s ((s.after x outcome).noting x task)
  | deliver {x letter rest outcome} (hx : x ∈ rules.members)
      (hflight : s.flight = letter ::ₘ rest) (haddressed : rules.addressed letter x)
      (hadmits : rules.admits (s.node x) letter)
      (hstep : nodes.receives (s.node x) letter outcome) :
        Step s ((s.withFlight rest).after x outcome)
  | lose {letter rest} (hflight : s.flight = letter ::ₘ rest) : Step s (s.withFlight rest)
  | duplicate {letter} (hduplicates : rules.duplicates) (hmem : letter ∈ s.flight) :
      Step s (s.withFlight (letter ::ₘ s.flight))

/-- Situations that come about when the nodes begin in given states. -/
def Reachable (node : ι → S) : Situation ι S T W E → Prop :=
  Relation.ReflTransGen (Step nodes rules) (Situation.start node)

variable {nodes rules}

section Extend

variable {node : ι → S} {s : Situation ι S T W E} (hrun : Reachable nodes rules node s)
include hrun

theorem Reachable.begin {x : ι} (hx : x ∈ rules.members) (task : T) (outcome : Outcome S W E)
    (hstep : nodes.begins (s.node x) task outcome) :
    Reachable nodes rules node ((s.after x outcome).noting x task) :=
  hrun.tail (.begin hx hstep)

theorem Reachable.deliver {x : ι} (hx : x ∈ rules.members) (letter : W) (rest : Multiset W)
    (outcome : Outcome S W E) (hflight : s.flight = letter ::ₘ rest)
    (haddressed : rules.addressed letter x) (hadmits : rules.admits (s.node x) letter)
    (hstep : nodes.receives (s.node x) letter outcome) :
    Reachable nodes rules node ((s.withFlight rest).after x outcome) :=
  hrun.tail (.deliver hx hflight haddressed hadmits hstep)

end Extend

/-- A property that does not mind letters being lost or copied is invariant if
tasks and letters preserve it. A letter may be thought to stay in flight when it
is delivered. -/
theorem Reachable.invariant {motive : Situation ι S T W E → Prop} {node : ι → S}
    {s : Situation ι S T W E} (hrun : Reachable nodes rules node s)
    (hstart : motive (Situation.start node))
    (hflight : ∀ s flight, motive s → (∀ letter ∈ flight, letter ∈ s.flight) →
      motive (s.withFlight flight))
    (hbegin : ∀ s x task outcome, motive s → x ∈ rules.members →
      nodes.begins (s.node x) task outcome →
      motive ((s.after x outcome).noting x task))
    (hdeliver : ∀ s x letter outcome, motive s → x ∈ rules.members → letter ∈ s.flight →
      rules.addressed letter x → rules.admits (s.node x) letter →
      nodes.receives (s.node x) letter outcome → motive (s.after x outcome)) : motive s := by
  induction hrun with
  | refl => exact hstart
  | @tail s next _ hstep ih =>
      cases hstep with
      | begin hx hstep => exact hbegin s _ _ _ ih hx hstep
      | @deliver x letter rest outcome hx heq haddressed hadmits hstep =>
          have hmem : letter ∈ s.flight := by simp [heq]
          have hafter := hdeliver s x letter outcome ih hx hmem haddressed hadmits hstep
          refine hflight _ (outcome.letters + rest) hafter fun other hother => ?_
          rcases Multiset.mem_add.mp hother with hnew | hold
          · exact Multiset.mem_add.mpr (Or.inl hnew)
          · exact Multiset.mem_add.mpr (Or.inr (heq ▸ Multiset.mem_cons_of_mem hold))
      | @lose letter rest heq =>
          exact hflight s rest ih fun other hother => heq ▸ Multiset.mem_cons_of_mem hother
      | @duplicate letter _ hmem =>
          refine hflight s _ ih fun other hother => ?_
          rcases Multiset.mem_cons.mp hother with rfl | hother
          · exact hmem
          · exact hother

end Runs

/-! ## Runs that are carried out -/

/-- A situation whose letters in flight are in a certain order. -/
structure Record (ι S T W E : Type*) where
  node : ι → S
  flight : List W
  sent : List W
  begun : List (ι × T)
  events : List (ι × E)

namespace Record

variable (record : Record ι S T W E)

def situation : Situation ι S T W E :=
  ⟨record.node, record.flight, record.sent, record.begun, record.events⟩

def after [DecidableEq ι] (x : ι) (outcome : Outcome S W E) : Record ι S T W E where
  node := Function.update record.node x outcome.state
  flight := outcome.letters ++ record.flight
  sent := outcome.letters ++ record.sent
  begun := record.begun
  events := outcome.events.map (x, ·) ++ record.events

def noting (x : ι) (task : T) : Record ι S T W E :=
  { record with begun := (x, task) :: record.begun }

def without (index : ℕ) : Record ι S T W E := { record with flight := record.flight.eraseIdx index }

variable {record} [DecidableEq ι] {nodes : Behaviour S T W E} {rules : Rules ι S W} {node : ι → S}
  (hrun : Reachable nodes rules node record.situation) {x : ι} (hx : x ∈ rules.members)
  {outcome : Outcome S W E}
include hrun hx

theorem reachable_begin {task : T} (hstep : nodes.begins (record.node x) task outcome) :
    Reachable nodes rules node ((record.after x outcome).noting x task).situation :=
  hrun.begin hx task outcome hstep

theorem reachable_deliver {index : ℕ} {letter : W} (hletter : record.flight[index]? = some letter)
    (haddressed : rules.addressed letter x) (hadmits : rules.admits (record.node x) letter)
    (hstep : nodes.receives (record.node x) letter outcome) :
    Reachable nodes rules node ((record.without index).after x outcome).situation := by
  obtain ⟨hindex, rfl⟩ := List.getElem?_eq_some_iff.mp hletter
  have hflight : record.situation.flight =
      record.flight[index] ::ₘ (record.flight.eraseIdx index : Multiset W) :=
    Multiset.coe_eq_coe.mpr (List.getElem_cons_eraseIdx_perm hindex).symm
  exact hrun.deliver hx _ _ outcome hflight haddressed hadmits hstep

end Record

end Mail
