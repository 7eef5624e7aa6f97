import Mathlib

/-!
# Cascades of messages

Handling one message may put finitely many new messages in flight. A cascade
starts from some messages and handles those in flight one at a time, in any
order. The log remembers every reaction, so that statements about a complete
run can be read off its last configuration.
-/

namespace Cascade

variable {M N : Type*}

/-- Messages still in flight, and the reactions so far, latest first: each
handled message with the messages it put in flight. -/
structure Config (M : Type*) where
  inFlight : Multiset M
  log : List (M × List M)

namespace Config

/-- Every message handled so far. -/
def handled (cfg : Config M) : List M := cfg.log.map Prod.fst

/-- Every message put in flight by a reaction. -/
def emitted (cfg : Config M) : List M := cfg.log.flatMap Prod.snd

@[simp] theorem mem_handled {cfg : Config M} {m : M} :
    m ∈ cfg.handled ↔ ∃ outs, (m, outs) ∈ cfg.log := by
  simp [handled]

@[simp] theorem mem_emitted {cfg : Config M} {m : M} :
    m ∈ cfg.emitted ↔ ∃ entry ∈ cfg.log, m ∈ entry.2 := by
  simp [emitted]

/-- Forget part of every message. -/
def map (f : M → N) (cfg : Config M) : Config N where
  inFlight := cfg.inFlight.map f
  log := cfg.log.map fun entry => (f entry.1, entry.2.map f)

@[simp] theorem map_inFlight (f : M → N) (cfg : Config M) :
    (cfg.map f).inFlight = cfg.inFlight.map f := rfl

@[simp] theorem map_handled (f : M → N) (cfg : Config M) :
    (cfg.map f).handled = cfg.handled.map f := by
  simp [handled, map, Function.comp_def]

end Config

/-- The configuration in which nothing has been handled yet. -/
def start (init : Multiset M) : Config M := ⟨init, []⟩

@[simp] theorem start_inFlight (init : Multiset M) : (start init).inFlight = init := rfl

@[simp] theorem start_log (init : Multiset M) : (start init).log = [] := rfl

section Runs

variable (react : M → List M → Prop)

/-- Some message in flight is handled. -/
def Deliver (cfg next : Config M) : Prop :=
  ∃ message rest outs, cfg.inFlight = message ::ₘ rest ∧ react message outs ∧
    next = ⟨(outs : Multiset M) + rest, (message, outs) :: cfg.log⟩

/-- Configurations of the runs that begin with `init` in flight. -/
def Reachable (init : Multiset M) : Config M → Prop :=
  Relation.ReflTransGen (Deliver react) (start init)

variable {react} {init : Multiset M} {cfg : Config M}

theorem Reachable.refl (react : M → List M → Prop) (init : Multiset M) :
    Reachable react init (start init) :=
  Relation.ReflTransGen.refl

/-- What holds at the start and is kept by every delivery holds throughout. -/
theorem Reachable.invariant {motive : Config M → Prop} (hrun : Reachable react init cfg)
    (hstart : motive (start init))
    (hstep : ∀ cfg next, motive cfg → Deliver react cfg next → motive next) : motive cfg := by
  induction hrun with
  | refl => exact hstart
  | tail _ hdeliver ih => exact hstep _ _ ih hdeliver

/-- Nothing is lost and nothing appears from nowhere: what was ever put in
flight is either still there or has been handled, copies counted. -/
theorem Reachable.balance (hrun : Reachable react init cfg) :
    cfg.inFlight + (cfg.handled : Multiset M) = init + (cfg.emitted : Multiset M) := by
  refine hrun.invariant (motive := fun cfg =>
    cfg.inFlight + (cfg.handled : Multiset M) = init + (cfg.emitted : Multiset M)) ?_ ?_
  · simp [Config.handled, Config.emitted]
  · rintro cfg next hbalance ⟨message, rest, outs, hflight, _, rfl⟩
    simp only [Config.handled, Config.emitted, List.map_cons, List.flatMap_cons,
      ← Multiset.cons_coe, ← Multiset.coe_add] at hbalance ⊢
    rw [hflight, Multiset.cons_add] at hbalance
    rw [Multiset.add_cons, add_assoc, ← Multiset.add_cons, hbalance]
    abel

theorem Reachable.log_react (hrun : Reachable react init cfg) {entry : M × List M}
    (hentry : entry ∈ cfg.log) : react entry.1 entry.2 := by
  refine hrun.invariant (motive := fun cfg => ∀ entry ∈ cfg.log, react entry.1 entry.2)
    (by simp) ?_ entry hentry
  rintro cfg next hlog ⟨message, rest, outs, _, hreact, rfl⟩ entry hentry
  rcases List.mem_cons.mp hentry with rfl | hentry
  · exact hreact
  · exact hlog entry hentry

/-- A property of the first messages that reactions pass on belongs to every
message of the run. -/
theorem Reachable.all_messages {good : M → Prop} (hrun : Reachable react init cfg)
    (hinit : ∀ m ∈ init, good m)
    (hreact : ∀ m outs, good m → react m outs → ∀ o ∈ outs, good o) :
    (∀ m ∈ cfg.inFlight, good m) ∧ ∀ m ∈ cfg.handled, good m := by
  refine hrun.invariant (motive := fun cfg =>
    (∀ m ∈ cfg.inFlight, good m) ∧ ∀ m ∈ cfg.handled, good m) ⟨hinit, by simp⟩ ?_
  rintro cfg next ⟨hflight, hhandled⟩ ⟨message, rest, outs, heq, hstep, rfl⟩
  have hmessage : good message := hflight message (by simp [heq])
  refine ⟨?_, ?_⟩
  · intro m hm
    rcases Multiset.mem_add.mp hm with hm | hm
    · exact hreact message outs hmessage hstep m (Multiset.mem_coe.mp hm)
    · exact hflight m (by simp [heq, hm])
  · intro m hm
    rcases List.mem_cons.mp hm with rfl | hm
    · exact hmessage
    · exact hhandled m hm

theorem Reachable.countP_handled_le (hrun : Reachable react init cfg) (p : M → Prop)
    [DecidablePred p] :
    cfg.handled.countP p ≤ init.countP p + cfg.emitted.countP p := by
  have hcount := congrArg (Multiset.countP p) hrun.balance
  simp only [Multiset.countP_add, Multiset.coe_countP] at hcount
  omega

theorem Reachable.countP_handled_of_quiet (hrun : Reachable react init cfg) (p : M → Prop)
    [DecidablePred p] (hquiet : ∀ m ∈ cfg.inFlight, ¬ p m) :
    cfg.handled.countP p = init.countP p + cfg.emitted.countP p := by
  have hcount := congrArg (Multiset.countP p) hrun.balance
  simp only [Multiset.countP_add, Multiset.coe_countP] at hcount
  rw [Multiset.countP_eq_zero.mpr hquiet] at hcount
  omega

end Runs

/-! ## Execution -/

section Execution

/-- Deliver messages in the order they were sent, with reactions that are
computed, until nothing is left or `fuel` deliveries are made. -/
def executeFrom (handle : M → List M) : (fuel : ℕ) → List M → List (M × List M) → Config M
  | 0, queue, log => ⟨queue, log⟩
  | _ + 1, [], log => ⟨0, log⟩
  | fuel + 1, m :: queue, log =>
      executeFrom handle fuel (queue ++ handle m) ((m, handle m) :: log)

def execute (handle : M → List M) (fuel : ℕ) (init : List M) : Config M :=
  executeFrom handle fuel init []

/-- An execution is one of the runs. -/
theorem reachable_execute {react : M → List M → Prop} {handle : M → List M} (good : M → Prop)
    (hreact : ∀ m, good m → react m (handle m) ∧ ∀ o ∈ handle m, good o) (fuel : ℕ)
    {init : List M} (hinit : ∀ m ∈ init, good m) :
    Reachable react init (execute handle fuel init) := by
  suffices hfrom : ∀ (queue : List M) log, (∀ m ∈ queue, good m) →
      Reachable react init ⟨queue, log⟩ →
      Reachable react init (executeFrom handle fuel queue log) from
    hfrom init [] hinit (Reachable.refl react init)
  induction fuel with
  | zero => exact fun queue log _ hrun => hrun
  | succ fuel ih =>
      intro queue log hgood hrun
      cases queue with
      | nil => exact hrun
      | cons m queue =>
          obtain ⟨hm, hqueue⟩ := List.forall_mem_cons.mp hgood
          obtain ⟨hstep, houts⟩ := hreact m hm
          refine ih _ _ (List.forall_mem_append.mpr ⟨hqueue, houts⟩) (hrun.tail ?_)
          exact ⟨m, queue, handle m, (Multiset.cons_coe m queue).symm, hstep,
            by rw [Multiset.coe_add, Multiset.coe_eq_coe.mpr List.perm_append_comm]⟩

end Execution

/-! ## Termination -/

section Termination

/-- What a message may still cause, when a reaction puts fewer than `base`
messages in flight and each of them has a smaller rank. -/
theorem sum_pow_lt {base : ℕ} (rank : M → ℕ) {m : M} {outs : List M} (hlen : outs.length < base)
    (hrank : ∀ o ∈ outs, rank o < rank m) :
    (outs.map fun o => base ^ rank o).sum + 1 ≤ base ^ rank m := by
  rcases Nat.eq_zero_or_pos (rank m) with hzero | hpos
  · have hnil : outs = [] := List.eq_nil_iff_forall_not_mem.mpr fun o ho => by
      have := hrank o ho
      omega
    simp [hnil, hzero]
  · have hsum : (outs.map fun o => base ^ rank o).sum ≤ outs.length * base ^ (rank m - 1) := by
      have hle := List.sum_le_card_nsmul (outs.map fun o => base ^ rank o) (base ^ (rank m - 1))
        fun w hw => by
          obtain ⟨o, ho, rfl⟩ := List.mem_map.mp hw
          have hlt := hrank o ho
          exact Nat.pow_le_pow_right (by omega) (by omega)
      simpa using hle
    have hbase : 0 < base ^ (rank m - 1) := Nat.pow_pos (by omega)
    calc (outs.map fun o => base ^ rank o).sum + 1
        ≤ outs.length * base ^ (rank m - 1) + base ^ (rank m - 1) := by omega
      _ = (outs.length + 1) * base ^ (rank m - 1) := by ring
      _ ≤ base * base ^ (rank m - 1) := Nat.mul_le_mul_right _ hlen
      _ = base ^ rank m := by rw [← pow_succ', Nat.sub_add_cancel hpos]

variable {react : M → List M → Prop} {init : Multiset M} {cfg : Config M}

/-- Ranks that go down bound the number of deliveries in every run. -/
theorem Reachable.log_length_le (hrun : Reachable react init cfg) (good : M → Prop) {base : ℕ}
    (rank : M → ℕ) (hinit : ∀ m ∈ init, good m)
    (hreact : ∀ m outs, good m → react m outs →
      outs.length < base ∧ ∀ o ∈ outs, good o ∧ rank o < rank m) :
    cfg.log.length ≤ (init.map fun m => base ^ rank m).sum := by
  suffices hsum : cfg.log.length + (cfg.inFlight.map fun m => base ^ rank m).sum ≤
      (init.map fun m => base ^ rank m).sum by omega
  refine (hrun.invariant (motive := fun cfg => (∀ m ∈ cfg.inFlight, good m) ∧
    cfg.log.length + (cfg.inFlight.map fun m => base ^ rank m).sum ≤
      (init.map fun m => base ^ rank m).sum) ⟨hinit, by simp⟩ ?_).2
  rintro cfg next ⟨hflight, hle⟩ ⟨message, rest, outs, heq, hstep, rfl⟩
  have hmessage : good message := hflight message (by simp [heq])
  obtain ⟨hlen, houts⟩ := hreact message outs hmessage hstep
  refine ⟨fun m hm => ?_, ?_⟩
  · rcases Multiset.mem_add.mp hm with hm | hm
    · exact (houts m (Multiset.mem_coe.mp hm)).1
    · exact hflight m (by simp [heq, hm])
  · have hdescend := sum_pow_lt rank hlen fun o ho => (houts o ho).2
    simp only [heq, Multiset.map_cons, Multiset.sum_cons, Multiset.map_add, Multiset.sum_add,
      Multiset.map_coe, Multiset.sum_coe, List.length_cons] at hle ⊢
    omega

end Termination

section Completion

variable {react : M → List M → Prop} {init : Multiset M} {cfg : Config M}

/-- Every run can be continued until no message of a kind is left, if handling such a
message puts only messages of smaller rank of that kind in flight. -/
theorem Reachable.exists_without {p : M → Prop} (good : M → Prop) (rank : M → ℕ)
    (hreact : ∀ m, good m → p m → ∃ outs, react m outs ∧
      ∀ o ∈ outs, good o ∧ (p o → rank o < rank m))
    (hrun : Reachable react init cfg) (hgood : ∀ m ∈ cfg.inFlight, good m) :
    ∃ last, Reachable react init last ∧ ∀ m ∈ last.inFlight, ¬ p m := by
  classical
  have hwf : WellFounded (Relation.CutExpand (· < · : ℕ → ℕ → Prop)) :=
    wellFounded_lt.cutExpand
  -- the ranks of the messages of the kind descend as a multiset
  generalize hranks : (cfg.inFlight.filter p).map rank = ranks
  induction ranks using hwf.induction generalizing cfg with
  | _ ranks ih =>
      by_cases hany : ∃ m ∈ cfg.inFlight, p m
      · obtain ⟨m, hm, hp⟩ := hany
        obtain ⟨rest, hflight⟩ := Multiset.exists_cons_of_mem hm
        obtain ⟨outs, hstep, houts⟩ := hreact m (hgood m hm) hp
        refine ih _ ?_ (hrun.tail ⟨m, rest, outs, hflight, hstep, rfl⟩) ?_ rfl
        · refine ⟨((outs : Multiset M).filter p).map rank, rank m, ?_, ?_⟩
          · intro r hr
            obtain ⟨o, ho, rfl⟩ := Multiset.mem_map.mp hr
            obtain ⟨ho, hpo⟩ := Multiset.mem_filter.mp ho
            exact (houts o (Multiset.mem_coe.mp ho)).2 hpo
          · rw [← hranks, hflight, Multiset.filter_cons_of_pos _ hp, Multiset.filter_add,
              Multiset.map_add, Multiset.map_cons, ← Multiset.singleton_add]
            abel
        · intro o ho
          rcases Multiset.mem_add.mp ho with ho | ho
          · exact (houts o (Multiset.mem_coe.mp ho)).1
          · exact hgood o (by simp [hflight, ho])
      · exact ⟨cfg, hrun, fun m hm hp => hany ⟨m, hm, hp⟩⟩

end Completion

/-! ## Refinement -/

section Refinement

variable {react : M → List M → Prop} (react' : N → List N → Prop)

/-- If forgetting details turns reactions into reactions, it turns runs into
runs. -/
theorem Reachable.map {init : Multiset M} {cfg : Config M} (hrun : Reachable react init cfg)
    (f : M → N) (good : M → Prop) (hinit : ∀ m ∈ init, good m)
    (hreact : ∀ m outs, good m → react m outs →
      react' (f m) (outs.map f) ∧ ∀ o ∈ outs, good o) :
    Reachable react' (init.map f) (cfg.map f) := by
  induction hrun with
  | refl => exact Relation.ReflTransGen.refl
  | tail hprior hdeliver ih =>
      have hall := Reachable.all_messages hprior hinit
        (fun m outs hm hstep => (hreact m outs hm hstep).2)
      obtain ⟨message, rest, outs, hflight, hstep, rfl⟩ := hdeliver
      have hmessage := hall.1 message (by simp [hflight])
      refine Relation.ReflTransGen.tail ih
        ⟨f message, rest.map f, outs.map f, ?_, (hreact message outs hmessage hstep).1, ?_⟩
      · simp [hflight]
      · simp [Config.map]

end Refinement

/-! ## Hop counts -/

/-- Reactions on messages that carry the number of messages on the chain that
led to them. -/
def Counted (react : M → List M → Prop) (m : M × ℕ) (outs : List (M × ℕ)) : Prop :=
  react m.1 (outs.map Prod.fst) ∧ ∀ o ∈ outs, o.2 = m.2 + 1

/-- Every run can be counted along. -/
theorem Reachable.counted {react : M → List M → Prop} {init : List M} {cfg : Config M}
    (hrun : Reachable react init cfg) :
    ∃ counted : Config (M × ℕ), Reachable (Counted react) (init.map (·, 1) : List (M × ℕ)) counted ∧
      counted.map Prod.fst = cfg := by
  induction hrun with
  | refl => exact ⟨_, Reachable.refl _ _, by simp [start, Config.map, Function.comp_def]⟩
  | tail _ hdeliver ih =>
      classical
      obtain ⟨counted, hcounted, rfl⟩ := ih
      obtain ⟨m, rest, outs, hflight, hstep, rfl⟩ := hdeliver
      obtain ⟨⟨m', hops⟩, hmem, rfl, rfl⟩ := (Multiset.map_eq_cons _ _ _ _).mpr hflight
      refine ⟨_, hcounted.tail ⟨(m', hops), counted.inFlight.erase (m', hops),
        outs.map (·, hops + 1), (Multiset.cons_erase hmem).symm, ⟨?_, ?_⟩, rfl⟩, ?_⟩
      · simpa [Function.comp_def] using hstep
      · intro o ho
        obtain ⟨o', _, rfl⟩ := List.mem_map.mp ho
        rfl
      · simp [Config.map, Function.comp_def]

end Cascade
