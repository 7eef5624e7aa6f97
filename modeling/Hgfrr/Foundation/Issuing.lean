import Mathlib

/-!
# Names that owners issue

Each owner names what it issues by itself and the value of a counter, which goes up
with every name, and also when a name is not used. No name is issued twice, whatever
the owners do in whatever order.
-/

/-- Names that are issued while a counter goes from one value to another, in order. Some
of its values may be left out. -/
def IssuedBetween {Name : Type*} (name : ℕ → Name) (n n' : ℕ) (names : List Name) : Prop :=
  ∃ k, n' = n + k ∧ names.Sublist ((List.range' n k).map name)

namespace IssuedBetween

variable {Name : Type*} {name : ℕ → Name} {n n' n'' : ℕ} {names names' : List Name}

theorem nil : IssuedBetween name n n [] := ⟨0, rfl, List.nil_sublist _⟩

/-- Whatever carries a name carries the next one. -/
theorem dedup [DecidableEq Name] (h : ∀ x ∈ names, x = name n) :
    IssuedBetween name n (n + 1) names.dedup := by
  refine ⟨1, rfl, ?_⟩
  obtain hreplicate : names = List.replicate names.length (name n) :=
    List.eq_replicate_iff.mpr ⟨rfl, h⟩
  cases hlength : names.length with
  | zero =>
      rw [List.length_eq_zero_iff.mp hlength, List.dedup_nil]
      exact List.nil_sublist _
  | succ count =>
      rw [hreplicate, hlength, List.replicate_dedup (by omega)]
      exact List.Sublist.refl _

theorem append (h : IssuedBetween name n n' names) (h' : IssuedBetween name n' n'' names') :
    IssuedBetween name n n'' (names ++ names') := by
  obtain ⟨k, rfl, hnames⟩ := h
  obtain ⟨k', rfl, hnames'⟩ := h'
  refine ⟨k + k', by omega, ?_⟩
  rw [← List.range'_append_1, List.map_append]
  exact hnames.append hnames'

theorem le (h : IssuedBetween name n n' names) : n ≤ n' := by
  obtain ⟨k, rfl, _⟩ := h
  omega

/-- An issued name belongs to a value that the counter has passed. -/
theorem exists_of_mem (h : IssuedBetween name n n' names) {x : Name} (hx : x ∈ names) :
    ∃ m, n ≤ m ∧ m < n' ∧ x = name m := by
  obtain ⟨k, rfl, hnames⟩ := h
  obtain ⟨m, hm, rfl⟩ := List.mem_map.mp (hnames.subset hx)
  exact ⟨m, (List.mem_range'_1.mp hm).1, (List.mem_range'_1.mp hm).2, rfl⟩

theorem nodup (h : IssuedBetween name n n' names) (hname : Function.Injective name) :
    names.Nodup := by
  obtain ⟨k, rfl, hnames⟩ := h
  exact (List.Nodup.map hname List.nodup_range').sublist hnames

end IssuedBetween

/-- A machine that issues names. Each event takes the next values of its counter. -/
structure Issuer (S E O Name : Type*) where
  step : S → E → S
  issued : S → E → List Name
  owner : S → O
  counter : S → ℕ
  name : O → ℕ → Name
  owner_step : ∀ s e, owner (step s e) = owner s
  issued_between : ∀ s e,
    IssuedBetween (name (owner s)) (counter s) (counter (step s e)) (issued s e)

namespace Issuer

variable {S E O Name ι : Type*} [DecidableEq ι] (issuer : Issuer S E O Name)

/-- The names issued by a family of machines in a sequence of events, each of which
happens at one of them. -/
def run (states : ι → S) : List (ι × E) → List Name
  | [] => []
  | (i, e) :: events =>
      issuer.issued (states i) e ++
        run (Function.update states i (issuer.step (states i) e)) events

variable {issuer} {states : ι → S}

theorem owner_update (i j : ι) (e : E) :
    issuer.owner (Function.update states i (issuer.step (states i) e) j) =
      issuer.owner (states j) := by
  by_cases h : j = i
  · subst h
    rw [Function.update_self, issuer.owner_step]
  · rw [Function.update_of_ne h]

theorem counter_le_update (i j : ι) (e : E) :
    issuer.counter (states j) ≤
      issuer.counter (Function.update states i (issuer.step (states i) e) j) := by
  by_cases h : j = i
  · subst h
    rw [Function.update_self]
    exact (issuer.issued_between (states j) e).le
  · rw [Function.update_of_ne h]

/-- A name issued from some states on is new there. -/
theorem exists_of_mem_run {events : List (ι × E)} {name : Name}
    (h : name ∈ issuer.run states events) :
    ∃ i n, issuer.counter (states i) ≤ n ∧ name = issuer.name (issuer.owner (states i)) n := by
  induction events generalizing states with
  | nil => simp [run] at h
  | cons event events ih =>
      obtain ⟨i, e⟩ := event
      rcases List.mem_append.mp h with hnow | hlater
      · obtain ⟨n, hle, _, rfl⟩ := (issuer.issued_between (states i) e).exists_of_mem hnow
        exact ⟨i, n, hle, rfl⟩
      · obtain ⟨j, n, hle, rfl⟩ := ih hlater
        exact ⟨j, n, (counter_le_update i j e).trans hle, by rw [owner_update]⟩

/-- When names tell owners and counters apart, all issued names are different. -/
theorem nodup_run
    (hname : ∀ i j n n', issuer.name (issuer.owner (states i)) n =
      issuer.name (issuer.owner (states j)) n' → i = j ∧ n = n') (events : List (ι × E)) :
    (issuer.run states events).Nodup := by
  induction events generalizing states with
  | nil => exact List.nodup_nil
  | cons event events ih =>
      obtain ⟨i, e⟩ := event
      have hissued := issuer.issued_between (states i) e
      refine List.nodup_append'.mpr ⟨?_, ih fun j j' n n' h => ?_, ?_⟩
      · exact hissued.nodup fun n n' h => (hname i i n n' h).2
      · exact hname j j' n n' (by simpa only [owner_update] using h)
      · intro name hnow hlater
        obtain ⟨n, _, hlt, rfl⟩ := hissued.exists_of_mem hnow
        obtain ⟨j, n', hle, heq⟩ := exists_of_mem_run hlater
        rw [owner_update] at heq
        obtain ⟨rfl, rfl⟩ := hname i j n n' heq
        rw [Function.update_self] at hle
        omega

end Issuer
