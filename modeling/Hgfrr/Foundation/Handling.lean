import Hgfrr.Foundation.Emission

/-!
# Handlers that call themselves

Handling an item leads to calls. A call may hand an item back, which is then handled
before the next call is made. Whether this comes to an end is a matter of the items
alone, when an invariant of the states says enough about the calls.
-/

/-- What handling an item leads to, and what each of the calls does. -/
structure Handler (S M C ε : Type*) where
  handle : S → M → S × Emission ε C
  send : S → C → S × Option M

namespace Handler

variable {S M C ε : Type*} (h : Handler S M C ε)

/-- Make a call, and handle what it hands back. -/
def sendWith (next : S → M → Except ε S) (s : S) (call : C) : Except ε S :=
  match h.send s call with
  | (s', none) => .ok s'
  | (s', some m) => next s' m

/-- Handle an item. The failure of a routine comes after the calls it has made. -/
def handleWith (next : S → M → Except ε S) (s : S) (m : M) : Except ε S := do
  let s' ← (h.handle s m).2.emitted.foldlM (h.sendWith next) (h.handle s m).1
  match (h.handle s m).2.failure with
  | none => .ok s'
  | some e => .error e

/-- Handle an item with so many levels of recursion. -/
def within (stuck : ε) : ℕ → S → M → Except ε S
  | 0, _, _ => .error stuck
  | fuel + 1, s, m => h.handleWith (within stuck fuel) s m

/-- The recursion comes to an end without failure. -/
def Ends (stuck : ε) (s : S) (m : M) : Prop := ∃ fuel s', h.within stuck fuel s m = .ok s'

/-- An invariant of the states. -/
structure Keeps (I : S → Prop) : Prop where
  handle : ∀ s m, I s → I (h.handle s m).1
  send : ∀ s call, I s → I (h.send s call).1

variable {h} {stuck : ε} {I : S → Prop}

theorem sendWith_mono {next next' : S → M → Except ε S}
    (hnext : ∀ s m s', next s m = .ok s' → next' s m = .ok s') {s s' : S} {call : C}
    (hsent : h.sendWith next s call = .ok s') : h.sendWith next' s call = .ok s' := by
  unfold sendWith at hsent ⊢
  split at hsent
  next => exact hsent
  next => exact hnext _ _ _ hsent

theorem foldlM_sendWith_mono {next next' : S → M → Except ε S}
    (hnext : ∀ s m s', next s m = .ok s' → next' s m = .ok s') {calls : List C} {s s' : S}
    (hcalls : calls.foldlM (h.sendWith next) s = .ok s') :
    calls.foldlM (h.sendWith next') s = .ok s' := by
  induction calls generalizing s with
  | nil => exact hcalls
  | cons call calls ih =>
      rw [List.foldlM_cons] at hcalls ⊢
      cases hfirst : h.sendWith next s call with
      | error e =>
          rw [hfirst] at hcalls
          cases hcalls
      | ok s₁ =>
          rw [hfirst] at hcalls
          rw [sendWith_mono hnext hfirst]
          exact ih hcalls

/-- More levels of recursion change nothing about what has ended. -/
theorem within_mono {fuel fuel' : ℕ} (hle : fuel ≤ fuel') {s s' : S} {m : M}
    (hends : h.within stuck fuel s m = .ok s') : h.within stuck fuel' s m = .ok s' := by
  induction fuel generalizing fuel' s s' m with
  | zero => cases hends
  | succ fuel ih =>
      obtain ⟨more, rfl⟩ := Nat.exists_eq_add_of_le' hle
      rw [within, handleWith] at hends
      rw [show more + (fuel + 1) = more + fuel + 1 from rfl, within, handleWith]
      cases hcalls : (h.handle s m).2.emitted.foldlM (h.sendWith (h.within stuck fuel))
          (h.handle s m).1 with
      | error e =>
          rw [hcalls] at hends
          cases hends
      | ok s₁ =>
          rw [foldlM_sendWith_mono (fun s m s' => ih (Nat.le_add_left fuel more)) hcalls]
          rwa [hcalls] at hends

/-- What ends has made its calls one after another, from states that keep the invariant. -/
theorem Keeps.foldlM_sendWith (hkeeps : h.Keeps I) {next : S → M → Except ε S}
    (hnext : ∀ s m s', I s → next s m = .ok s' → I s') {calls : List C} {s s' : S} (hs : I s)
    (hcalls : calls.foldlM (h.sendWith next) s = .ok s') :
    I s' ∧ ∀ call ∈ calls, ∃ s₁ s₂, I s₁ ∧ h.sendWith next s₁ call = .ok s₂ := by
  induction calls generalizing s with
  | nil =>
      obtain rfl : s = s' := Except.ok.inj hcalls
      exact ⟨hs, List.forall_mem_nil _⟩
  | cons call calls ih =>
      rw [List.foldlM_cons] at hcalls
      cases hfirst : h.sendWith next s call with
      | error e =>
          rw [hfirst] at hcalls
          cases hcalls
      | ok s₁ =>
          have hs₁ : I s₁ := by
            have hsend := hkeeps.send s call hs
            unfold sendWith at hfirst
            split at hfirst
            next heq =>
              obtain rfl := Except.ok.inj hfirst
              rwa [heq] at hsend
            next heq =>
              rw [heq] at hsend
              exact hnext _ _ _ hsend hfirst
          rw [hfirst] at hcalls
          obtain ⟨hlast, hrest⟩ := ih hs₁ hcalls
          exact ⟨hlast, List.forall_mem_cons.mpr ⟨⟨s, s₁, hs, hfirst⟩, hrest⟩⟩

theorem Keeps.within (hkeeps : h.Keeps I) {fuel : ℕ} {s s' : S} {m : M} (hs : I s)
    (hends : h.within stuck fuel s m = .ok s') : I s' := by
  induction fuel generalizing s s' m with
  | zero => cases hends
  | succ fuel ih =>
      rw [Handler.within, handleWith] at hends
      cases hcalls : (h.handle s m).2.emitted.foldlM (h.sendWith (h.within stuck fuel))
          (h.handle s m).1 with
      | error e =>
          rw [hcalls] at hends
          cases hends
      | ok s₁ =>
          rw [hcalls] at hends
          cases hfailure : (h.handle s m).2.failure with
          | some e =>
              rw [hfailure] at hends
              cases hends
          | none =>
              rw [hfailure] at hends
              obtain rfl : s₁ = s' := Except.ok.inj hends
              exact (hkeeps.foldlM_sendWith (fun s m s' => ih) (hkeeps.handle s m hs) hcalls).1

/-- What ends did not fail, and neither did what came back. -/
theorem Keeps.of_within_succ (hkeeps : h.Keeps I) {fuel : ℕ} {s s' : S} {m : M} (hs : I s)
    (hends : h.within stuck (fuel + 1) s m = .ok s') :
    (h.handle s m).2.failure = none ∧ ∀ call ∈ (h.handle s m).2.emitted, ∀ own,
      (∀ s, I s → (h.send s call).2 = some own) →
        ∃ s₁ s₂, I s₁ ∧ h.within stuck fuel s₁ own = .ok s₂ := by
  rw [Handler.within, handleWith] at hends
  cases hcalls : (h.handle s m).2.emitted.foldlM (h.sendWith (h.within stuck fuel))
      (h.handle s m).1 with
  | error e =>
      rw [hcalls] at hends
      cases hends
  | ok s₁ =>
      rw [hcalls] at hends
      have hfailure : (h.handle s m).2.failure = none := by
        cases hfailure : (h.handle s m).2.failure with
        | none => rfl
        | some e =>
            rw [hfailure] at hends
            cases hends
      refine ⟨hfailure, fun call hcall own hown => ?_⟩
      obtain ⟨s₂, s₃, hs₂, hsent⟩ := (hkeeps.foldlM_sendWith (fun s m s' => hkeeps.within)
        (hkeeps.handle s m hs) hcalls).2 call hcall
      have hback := hown s₂ hs₂
      have hkept := hkeeps.send s₂ call hs₂
      unfold sendWith at hsent
      split at hsent
      next heq =>
        rw [heq] at hback
        cases hback
      next s₄ m' heq =>
        rw [heq] at hback hkept
        obtain rfl : m' = own := Option.some.inj hback
        exact ⟨s₄, s₃, hkept, hsent⟩

/-- If every bad item fails or hands a bad item back, no bad item ends. -/
theorem Keeps.not_ends (hkeeps : h.Keeps I) (bad : M → Prop)
    (hbad : ∀ s m, I s → bad m → (h.handle s m).2.failure ≠ none ∨
      ∃ call ∈ (h.handle s m).2.emitted, ∃ own, bad own ∧
        ∀ s, I s → (h.send s call).2 = some own) {s : S} {m : M} (hs : I s) (hm : bad m) :
    ¬h.Ends stuck s m := by
  rintro ⟨fuel, hends⟩
  induction fuel generalizing s m with
  | zero => exact nomatch hends
  | succ fuel ih =>
      obtain ⟨s', hends⟩ := hends
      obtain ⟨hfailure, hback⟩ := hkeeps.of_within_succ hs hends
      rcases hbad s m hs hm with hfails | ⟨call, hcall, own, hown, hsent⟩
      · exact hfails hfailure
      · obtain ⟨s₁, s₂, hs₁, hends⟩ := hback call hcall own hsent
        exact ih hs₁ hown ⟨s₂, hends⟩

/-- If no good item fails, and what it hands back is good and smaller, every good item
ends. -/
theorem Keeps.ends (hkeeps : h.Keeps I) (good : M → Prop) {smaller : M → M → Prop}
    (hwf : WellFounded smaller)
    (hgood : ∀ s m, I s → good m → (h.handle s m).2.failure = none ∧
      ∀ call ∈ (h.handle s m).2.emitted, ∀ s own, I s → (h.send s call).2 = some own →
        good own ∧ smaller own m) {s : S} {m : M} (hs : I s) (hm : good m) :
    h.Ends stuck s m := by
  induction m using hwf.induction generalizing s with
  | _ m ih =>
      obtain ⟨hfailure, hback⟩ := hgood s m hs hm
      -- one fuel for all calls, each of which is made from a state of its own
      have hcalls : ∀ calls : List C, calls ⊆ (h.handle s m).2.emitted → ∀ s₁, I s₁ →
          ∃ fuel s₂, calls.foldlM (h.sendWith (h.within stuck fuel)) s₁ = .ok s₂ := by
        intro calls
        induction calls with
        | nil => exact fun _ s₁ _ => ⟨0, s₁, rfl⟩
        | cons call calls ihcalls =>
            intro hsub s₁ hs₁
            obtain ⟨hcall, hrest⟩ := List.cons_subset.mp hsub
            have hkept := hkeeps.send s₁ call hs₁
            obtain ⟨fuel, s₂, hs₂, hsent⟩ : ∃ fuel s₂, I s₂ ∧
                h.sendWith (h.within stuck fuel) s₁ call = .ok s₂ := by
              cases hown : h.send s₁ call with
              | mk s₂ own =>
                  rw [hown] at hkept
                  cases own with
                  | none => exact ⟨0, s₂, hkept, by rw [sendWith, hown]⟩
                  | some own =>
                      obtain ⟨hgoodOwn, hsmaller⟩ :=
                        hback call hcall s₁ own hs₁ (congrArg Prod.snd hown)
                      obtain ⟨fuel, s₃, hends⟩ := ih own hsmaller hkept hgoodOwn
                      refine ⟨fuel, s₃, hkeeps.within hkept hends, ?_⟩
                      rw [sendWith, hown]
                      exact hends
            obtain ⟨fuel', s₃, hlast⟩ := ihcalls hrest s₂ hs₂
            refine ⟨max fuel fuel', s₃, ?_⟩
            rw [List.foldlM_cons, sendWith_mono (fun s m s' => within_mono (le_max_left _ _)) hsent]
            exact foldlM_sendWith_mono (fun s m s' => within_mono (le_max_right _ _)) hlast
      obtain ⟨fuel, s', hlast⟩ := hcalls _ (List.Subset.refl _) _ (hkeeps.handle s m hs)
      exact ⟨fuel + 1, s', by rw [Handler.within, handleWith, hlast, hfailure]; rfl⟩

end Handler
