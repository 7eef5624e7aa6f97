import Mathlib

/-!
# Computations that emit

An imperative routine may send several items and then fail. What it has sent
by then stays sent, so the outcome is the list of emitted items together with
the failure, if there was one.
-/

/-- The items emitted in order, and the failure that ended the routine. -/
structure Emission (ε β : Type*) where
  emitted : List β
  failure : Option ε
deriving DecidableEq

namespace Emission

variable {ε α β : Type*}

/-- Nothing to do. -/
def done : Emission ε β := ⟨[], none⟩

def emit (item : β) : Emission ε β := ⟨[item], none⟩

def fail (e : ε) : Emission ε β := ⟨[], some e⟩

/-- Continue with a value, unless computing it failed. -/
def ofExcept (result : Except ε α) (next : α → Emission ε β) : Emission ε β :=
  match result with
  | .ok a => next a
  | .error e => fail e

/-- Run one routine after another. A failure skips the rest. -/
def andThen (first second : Emission ε β) : Emission ε β :=
  match first.failure with
  | none => ⟨first.emitted ++ second.emitted, second.failure⟩
  | some e => ⟨first.emitted, some e⟩

/-- Run routines in order. -/
def sequence : List (Emission ε β) → Emission ε β
  | [] => done
  | first :: rest => first.andThen (sequence rest)

/-- Run one routine after another, each of which also changes a state. -/
def andThenOn {S : Type*} (first : S × Emission ε β) (second : S → S × Emission ε β) :
    S × Emission ε β :=
  match first.2.failure with
  | none => ((second first.1).1, first.2.andThen (second first.1).2)
  | some _ => first

/-- Run routines in order that also change a state. -/
def sequenceOn {S : Type*} : List (S → S × Emission ε β) → S → S × Emission ε β
  | [], s => (s, done)
  | step :: steps, s => andThenOn (step s) (sequenceOn steps)

/-- What each of the routines emits, up to the one that fails. -/
def stagesOn {S : Type*} : List (S → S × Emission ε β) → S → List (List β)
  | [], _ => []
  | step :: steps, s =>
      (step s).2.emitted :: if (step s).2.failure.isSome then [] else stagesOn steps (step s).1

@[simp] theorem emitted_done : (done : Emission ε β).emitted = [] := rfl

@[simp] theorem failure_done : (done : Emission ε β).failure = none := rfl

@[simp] theorem emitted_emit (item : β) : (emit item : Emission ε β).emitted = [item] := rfl

@[simp] theorem failure_emit (item : β) : (emit item : Emission ε β).failure = none := rfl

@[simp] theorem ofExcept_ok (a : α) (next : α → Emission ε β) :
    ofExcept (.ok a) next = next a := rfl

@[simp] theorem ofExcept_error (e : ε) (next : α → Emission ε β) :
    ofExcept (.error e) next = fail e := rfl

@[simp] theorem emitted_fail (e : ε) : (fail e : Emission ε β).emitted = [] := rfl

@[simp] theorem failure_fail (e : ε) : (fail e : Emission ε β).failure = some e := rfl

theorem ofExcept_cases {result : Except ε α} {next : α → Emission ε β} {routine : Emission ε β}
    (h : ofExcept result next = routine) :
    (∃ e, routine = fail e) ∨ ∃ a, result = .ok a ∧ routine = next a := by
  subst h
  cases result with
  | ok a => exact Or.inr ⟨a, rfl, rfl⟩
  | error e => exact Or.inl ⟨e, rfl⟩

/-- Whatever is emitted after a computed value is emitted for that value. -/
theorem mem_emitted_ofExcept {result : Except ε α} {next : α → Emission ε β} {item : β}
    (h : item ∈ (ofExcept result next).emitted) :
    ∃ a, result = .ok a ∧ item ∈ (next a).emitted := by
  cases result with
  | ok a => exact ⟨a, rfl, h⟩
  | error e => simp at h

theorem failure_ofExcept_iff {result : Except ε α} {next : α → Emission ε β} :
    (ofExcept result next).failure = none ↔ ∃ a, result = .ok a ∧ (next a).failure = none := by
  cases result with
  | ok a => simp
  | error e => simp

/-- Where a routine that goes on with a computed value fails. -/
theorem failure_ofExcept_eq_some {result : Except ε α} {next : α → Emission ε β} {e : ε} :
    (ofExcept result next).failure = some e ↔
      result = .error e ∨ ∃ a, result = .ok a ∧ (next a).failure = some e := by
  cases result with
  | ok a => simp
  | error e => simp

theorem mem_emitted_andThen {first second : Emission ε β} {item : β}
    (h : item ∈ (first.andThen second).emitted) :
    item ∈ first.emitted ∨ item ∈ second.emitted := by
  unfold andThen at h
  split at h
  next => exact List.mem_append.mp h
  next => exact Or.inl h

theorem mem_emitted_andThenOn {S : Type*} {first : S × Emission ε β}
    {second : S → S × Emission ε β} {item : β} (h : item ∈ (andThenOn first second).2.emitted) :
    item ∈ first.2.emitted ∨ item ∈ (second first.1).2.emitted := by
  unfold andThenOn at h
  split at h
  next => exact mem_emitted_andThen h
  next => exact Or.inl h

/-- The stages are all that is emitted. -/
theorem flatten_stagesOn {S : Type*} (steps : List (S → S × Emission ε β)) (s : S) :
    (stagesOn steps s).flatten = (sequenceOn steps s).2.emitted := by
  induction steps generalizing s with
  | nil => rfl
  | cons step steps ih =>
      unfold stagesOn sequenceOn andThenOn andThen
      cases (step s).2.failure with
      | none => simp [ih]
      | some e => simp

theorem mem_emitted_sequence {routines : List (Emission ε β)} {item : β}
    (h : item ∈ (sequence routines).emitted) : ∃ routine ∈ routines, item ∈ routine.emitted := by
  induction routines with
  | nil => simp [sequence] at h
  | cons first rest ih =>
      rcases mem_emitted_andThen h with h | h
      · exact ⟨first, by simp, h⟩
      · obtain ⟨routine, hroutine, hitem⟩ := ih h
        exact ⟨routine, List.mem_cons_of_mem _ hroutine, hitem⟩

@[simp] theorem sequence_singleton (routine : Emission ε β) : sequence [routine] = routine := by
  obtain ⟨emitted, failure⟩ := routine
  cases failure <;> simp [sequence, andThen]

/-- If no routine fails, all of them are run. -/
theorem sequence_of_no_failure {routines : List (Emission ε β)}
    (h : ∀ routine ∈ routines, routine.failure = none) :
    sequence routines = ⟨routines.flatMap emitted, none⟩ := by
  induction routines with
  | nil => rfl
  | cons first rest ih =>
      rw [sequence, andThen, h first (by simp), ih fun r hr => h r (List.mem_cons_of_mem _ hr),
        List.flatMap_cons]

/-- A sequence ends without failure when each of its routines does. -/
theorem failure_sequence_iff {routines : List (Emission ε β)} :
    (sequence routines).failure = none ↔ ∀ routine ∈ routines, routine.failure = none := by
  refine ⟨fun h => ?_, fun h => by rw [sequence_of_no_failure h]⟩
  induction routines with
  | nil => simp
  | cons first rest ih =>
      simp only [sequence, andThen] at h
      split at h
      next hfirst => exact List.forall_mem_cons.mpr ⟨hfirst, ih h⟩
      next => exact absurd h (by simp)

/-- A sequence fails with the failure of one of its routines. -/
theorem exists_of_failure_sequence {routines : List (Emission ε β)} {e : ε}
    (h : (sequence routines).failure = some e) :
    ∃ routine ∈ routines, routine.failure = some e := by
  induction routines with
  | nil => cases h
  | cons first rest ih =>
      simp only [sequence, andThen] at h
      split at h
      next =>
        obtain ⟨routine, hroutine, hfailure⟩ := ih h
        exact ⟨routine, List.mem_cons_of_mem _ hroutine, hfailure⟩
      next hfirst => exact ⟨first, by simp, hfirst.trans h⟩

/-- Routines run in order, when none of them fails. -/
theorem sequence_flatMap {ι γ : Type*} {items : List ι} {run : ι → Emission ε β} {f : ι → List γ}
    (view : β → γ) (good : β → Prop)
    (h : ∀ i ∈ items, (run i).failure = none ∧ (run i).emitted.map view = f i ∧
      ∀ b ∈ (run i).emitted, good b) :
    (sequence (items.map run)).failure = none ∧
      (sequence (items.map run)).emitted.map view = items.flatMap f ∧
      ∀ b ∈ (sequence (items.map run)).emitted, good b := by
  have hnone : ∀ routine ∈ items.map run, routine.failure = none := by
    intro routine hroutine
    obtain ⟨i, hi, rfl⟩ := List.mem_map.mp hroutine
    exact (h i hi).1
  refine ⟨?_, ?_, ?_⟩
  · rw [sequence_of_no_failure hnone]
  · rw [sequence_of_no_failure hnone, List.flatMap_map, List.map_flatMap]
    exact List.flatMap_congr fun i hi => (h i hi).2.1
  · intro b hb
    obtain ⟨routine, hroutine, hmem⟩ := mem_emitted_sequence hb
    obtain ⟨i, hi, rfl⟩ := List.mem_map.mp hroutine
    exact (h i hi).2.2 b hmem

/-- Routines that emit one item each, when none of them fails. -/
theorem sequence_emit {ι γ : Type*} {items : List ι} {compute : ι → Except ε β} {f : ι → Option γ}
    (view : β → γ) (good : β → Prop)
    (h : ∀ i ∈ items, ∃ b, compute i = .ok b ∧ f i = some (view b) ∧ good b) :
    (sequence (items.map fun i => ofExcept (compute i) emit)).failure = none ∧
      (sequence (items.map fun i => ofExcept (compute i) emit)).emitted.map view =
        items.filterMap f ∧
      ∀ b ∈ (sequence (items.map fun i => ofExcept (compute i) emit)).emitted, good b := by
  rw [List.filterMap_eq_flatMap_toList]
  refine sequence_flatMap view good fun i hi => ?_
  obtain ⟨b, hb, hview, hgood⟩ := h i hi
  simp [hb, hview, hgood]

end Emission
