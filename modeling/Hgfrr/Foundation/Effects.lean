import Mathlib

/-!
# Computations that may fail on a state

A computation that fails leaves the state as it is then: what it has done before
is not undone. So the triple of a computation says of both ends what holds
there, and an invariant is kept only if it also holds after a failure.
-/

namespace Effects

variable {ε σ τ α β : Type}

abbrev Effect (ε σ α : Type) := ExceptT ε (StateM σ) α

/-- How a computation ends, and the state it leaves. -/
def outcome (m : Effect ε σ α) (s : σ) : Except ε α × σ := StateT.run (ExceptT.run m) s

/-- Run a computation on a part of the state. -/
def onPart (part : σ → τ) (put : τ → σ → σ) (m : Effect ε τ α) : Effect ε σ α := fun s =>
  ((outcome m (part s)).1, put (outcome m (part s)).2 s)

def ofExcept (result : Except ε α) : Effect ε σ α := fun s => (result, s)

section Outcome

variable {s : σ}

@[simp] theorem outcome_pure (a : α) : outcome (pure a : Effect ε σ α) s = (.ok a, s) := rfl

@[simp] theorem outcome_throw (e : ε) :
    outcome (throw e : Effect ε σ α) s = (.error e, s) := rfl

@[simp] theorem outcome_get : outcome (get : Effect ε σ σ) s = (.ok s, s) := rfl

@[simp] theorem outcome_modify (f : σ → σ) :
    outcome (modify f : Effect ε σ PUnit) s = (.ok ⟨⟩, f s) := rfl

@[simp] theorem outcome_ofExcept (result : Except ε α) :
    outcome (ofExcept result : Effect ε σ α) s = (result, s) := rfl

@[simp] theorem outcome_onPart (part : σ → τ) (put : τ → σ → σ) (m : Effect ε τ α) :
    outcome (onPart part put m) s =
      ((outcome m (part s)).1, put (outcome m (part s)).2 s) := rfl

/-- A failure of the first computation is one of both. -/
theorem outcome_bind (m : Effect ε σ α) (f : α → Effect ε σ β) :
    outcome (m >>= f) s =
      match outcome m s with
      | (.ok a, s') => outcome (f a) s'
      | (.error e, s') => (.error e, s') := by
  simp only [outcome, ExceptT.run_bind, StateT.run_bind]
  rcases h : StateT.run (ExceptT.run m) s with ⟨_ | a, s'⟩ <;> rfl

/-- Both computations succeed if they do one after the other. -/
theorem outcome_bind_eq_ok {m : Effect ε σ α} {f : α → Effect ε σ β} {b : β} {s'' : σ} :
    outcome (m >>= f) s = (.ok b, s'') ↔
      ∃ a s', outcome m s = (.ok a, s') ∧ outcome (f a) s' = (.ok b, s'') := by
  rw [outcome_bind]
  rcases outcome m s with ⟨e | a, s'⟩
  · exact ⟨fun h => by simp at h, fun ⟨_, _, h, _⟩ => by simp at h⟩
  · constructor
    · exact fun h => ⟨a, s', rfl, h⟩
    · rintro ⟨_, _, ⟨⟩, h⟩
      exact h

end Outcome

/-! ## Triples -/

def Ends (post : α → σ → Prop) (fail : ε → σ → Prop) : Except ε α × σ → Prop
  | (.ok a, s) => post a s
  | (.error e, s) => fail e s

/-- From a state in `pre` the computation ends in `post`, or it fails in
`fail`. -/
def Triple (pre : σ → Prop) (m : Effect ε σ α) (post : α → σ → Prop) (fail : ε → σ → Prop) :
    Prop :=
  ∀ s, pre s → Ends post fail (outcome m s)

/-- The invariant holds at the end, also after a failure. -/
def Keeps (inv : σ → Prop) (m : Effect ε σ α) : Prop := Triple inv m (fun _ => inv) (fun _ => inv)

section Rules

variable {pre pre' inv : σ → Prop} {m : Effect ε σ α} {post post' : α → σ → Prop}
  {fail fail' : ε → σ → Prop}

theorem triple_pure {a : α} (h : ∀ s, pre s → post a s) :
    Triple pre (pure a : Effect ε σ α) post fail := h

/-- A state that was read is the state the computation goes on from. -/
theorem triple_get_bind {f : σ → Effect ε σ α}
    (h : ∀ s, pre s → Triple (· = s) (f s) post fail) : Triple pre (get >>= f) post fail := by
  intro s hs
  rw [outcome_bind]
  exact h s hs s rfl

theorem triple_get_self {f : σ → Effect ε σ α} {s : σ} (h : Triple (· = s) (f s) post fail) :
    Triple (· = s) (get >>= f) post fail := by
  apply triple_get_bind
  intro t ht
  rwa [ht]

theorem triple_ofExcept {result : Except ε α} (hok : ∀ a s, result = .ok a → pre s → post a s)
    (herror : ∀ e s, result = .error e → pre s → fail e s) :
    Triple pre (ofExcept result) post fail := by
  intro s hs
  rw [outcome_ofExcept]
  cases result with
  | ok a => exact hok a s rfl hs
  | error e => exact herror e s rfl hs

theorem Triple.bind {f : α → Effect ε σ β} {mid : α → σ → Prop} {post : β → σ → Prop}
    (hm : Triple pre m mid fail) (hf : ∀ a, Triple (mid a) (f a) post fail) :
    Triple pre (m >>= f) post fail := by
  intro s hs
  have hmid := hm s hs
  rw [outcome_bind]
  rcases hout : outcome m s with ⟨e | a, s'⟩
  · rwa [hout] at hmid
  · rw [hout] at hmid
    exact hf a s' hmid

theorem Triple.weaken (h : Triple pre m post fail) (hpre : ∀ s, pre' s → pre s)
    (hpost : ∀ a s, post a s → post' a s) (hfail : ∀ e s, fail e s → fail' e s) :
    Triple pre' m post' fail' := by
  intro s hs
  have hend := h s (hpre s hs)
  revert hend
  rcases outcome m s with ⟨e | a, s'⟩ <;> intro hend
  · exact hfail e s' hend
  · exact hpost a s' hend

theorem Triple.forM {items : List α} {f : α → Effect ε σ PUnit}
    (h : ∀ a ∈ items, Triple inv (f a) (fun _ => inv) fail) :
    Triple inv (forM items f) (fun _ => inv) fail := by
  induction items with
  | nil => exact triple_pure fun _ hs => hs
  | cons a items ih =>
      obtain ⟨ha, hrest⟩ := List.forall_mem_cons.mp h
      rw [List.forM_cons]
      exact ha.bind fun _ => ih hrest

theorem keeps_pure {a : α} : Keeps inv (pure a : Effect ε σ α) := fun _ h => h

theorem Keeps.bind {f : α → Effect ε σ β} (hm : Keeps inv m) (hf : ∀ a, Keeps inv (f a)) :
    Keeps inv (m >>= f) := Triple.bind hm hf

theorem Keeps.forM {items : List α} {f : α → Effect ε σ PUnit}
    (h : ∀ a ∈ items, Keeps inv (f a)) : Keeps inv (forM items f) := Triple.forM h

end Rules

end Effects
