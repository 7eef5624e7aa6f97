import Mathlib

/-!
# Framed streams

A stream comes in pieces, and a buffer keeps what is not read yet. A reader takes steps:
each waits for some bytes, changes the state and gives values, and uses up some of the
bytes. A step may only look at the bytes, as one that reads the size of a frame does.
How the stream was cut into pieces makes no difference.
-/

/-- The steps of a reader: how much of the stream a step waits for, how much of that it
uses up, and what it does. After one that uses up nothing comes one that does. -/
structure Framing (α ε σ β : Type) where
  need : σ → ℕ
  used : σ → ℕ
  used_le (s : σ) : used s ≤ need s
  step : List α → σ → Except ε (List β) × σ
  used_pos {b : List α} {s s' : σ} {xs : List β} (h : step b s = (.ok xs, s'))
    (hzero : used s = 0) : 0 < used s'

namespace Framing

variable {α ε σ β : Type} (F : Framing α ε σ β)

/-- What gets smaller with every step. -/
def left (b : List α) (s : σ) : ℕ := 2 * b.length + if F.used s = 0 then 1 else 0

theorem left_lt {b c : List α} {s s' : σ} {xs : List β} (hneed : F.need s ≤ b.length)
    (hstep : F.step c s = (.ok xs, s')) : F.left (b.drop (F.used s)) s' < F.left b s := by
  have hle := F.used_le s
  have hpos := F.used_pos hstep
  rw [left, left, List.length_drop]
  split_ifs <;> omega

/-- Take steps while there is enough of the stream. A failure leaves the buffer as it was
before that step, and the state as the step left it. -/
def drain (b : List α) (s : σ) : Except ε (List β) × List α × σ :=
  if _ : F.need s ≤ b.length then
    match _ : F.step (b.take (F.need s)) s with
    | (.error e, s') => (.error e, b, s')
    | (.ok xs, s') =>
        ((drain (b.drop (F.used s)) s').1.map (xs ++ ·), (drain (b.drop (F.used s)) s').2)
  else (.ok [], b, s)
termination_by F.left b s
decreasing_by exact F.left_lt ‹_› ‹_›

/-- Go on with more of the stream. After a failure it is only added to the buffer. -/
def goOn (more : List α) :
    Except ε (List β) × List α × σ → Except ε (List β) × List α × σ
  | (.ok xs, b, s) => ((F.drain (b ++ more) s).1.map (xs ++ ·), (F.drain (b ++ more) s).2)
  | (.error e, b, s) => (.error e, b ++ more, s)

variable {F} {b : List α} {s s' : σ}

theorem drain_of_lt (h : b.length < F.need s) : F.drain b s = (.ok [], b, s) := by
  rw [drain, dif_neg (not_le.mpr h)]

theorem drain_error {e : ε} (h : F.need s ≤ b.length)
    (hstep : F.step (b.take (F.need s)) s = (.error e, s')) : F.drain b s = (.error e, b, s') := by
  rw [drain, dif_pos h]
  split
  next e' t heq =>
    obtain ⟨he, rfl⟩ := Prod.mk.inj (heq.symm.trans hstep)
    rw [he]
  next heq => exact absurd (heq.symm.trans hstep) (by simp)

theorem drain_ok {xs : List β} (h : F.need s ≤ b.length)
    (hstep : F.step (b.take (F.need s)) s = (.ok xs, s')) :
    F.drain b s =
      ((F.drain (b.drop (F.used s)) s').1.map (xs ++ ·), (F.drain (b.drop (F.used s)) s').2) := by
  rw [drain, dif_pos h]
  split
  next heq => exact absurd (heq.symm.trans hstep) (by simp)
  next ys t heq =>
    obtain ⟨hxs, rfl⟩ := Prod.mk.inj (heq.symm.trans hstep)
    rw [Except.ok.inj hxs]

/-- An induction over the steps of a drain. -/
theorem drain_induction {motive : List α → σ → Prop}
    (wait : ∀ b s, b.length < F.need s → motive b s)
    (error : ∀ b s e s', F.need s ≤ b.length →
      F.step (b.take (F.need s)) s = (.error e, s') → motive b s)
    (ok : ∀ b s xs s', F.need s ≤ b.length → F.step (b.take (F.need s)) s = (.ok xs, s') →
      motive (b.drop (F.used s)) s' → motive b s) (b : List α) (s : σ) : motive b s := by
  induction b, s using Framing.drain.induct F with
  | case1 b s hneed e s' hstep => exact error b s e s' hneed hstep
  | case2 b s hneed xs s' hstep ih => exact ok b s xs s' hneed hstep ih
  | case3 b s hneed => exact wait b s (not_le.mp hneed)

/-- Where a drain ends there is too little for the next step, or a step failed. A property
of the states that the steps keep holds there, also before the step that failed. -/
theorem drain_end {inv : σ → Prop} (hinv : inv s)
    (hstep : ∀ {b : List α} {s}, inv s → F.need s ≤ b.length →
      inv (F.step (b.take (F.need s)) s).2) :
    match F.drain b s with
    | (.ok _, b', s') => b'.length < F.need s' ∧ inv s'
    | (.error e, b', s') => ∃ s₀, inv s₀ ∧ F.need s₀ ≤ b'.length ∧
        F.step (b'.take (F.need s₀)) s₀ = (.error e, s') := by
  induction b, s using drain_induction (F := F) with
  | wait b s h =>
      rw [drain_of_lt h]
      exact ⟨h, hinv⟩
  | error b s e s' h herror =>
      rw [drain_error h herror]
      exact ⟨s, hinv, h, herror⟩
  | ok b s xs s' h hok ih =>
      have hend := ih (by simpa only [hok] using hstep hinv h)
      rw [drain_ok h hok]
      revert hend
      rcases F.drain (b.drop (F.used s)) s' with ⟨_ | ys, b', t⟩ <;> exact id

theorem goOn_map (more : List α) (xs : List β) (r : Except ε (List β) × List α × σ) :
    F.goOn more (r.1.map (xs ++ ·), r.2) =
      ((F.goOn more r).1.map (xs ++ ·), (F.goOn more r).2) := by
  obtain ⟨e | ys, b, s⟩ := r
  · rfl
  · change ((F.drain (b ++ more) s).1.map (xs ++ ys ++ ·), _) = _
    rw [goOn]
    rcases F.drain (b ++ more) s with ⟨e | zs, b', s'⟩
    · rfl
    · dsimp only [Except.map]
      rw [List.append_assoc]

/-- What comes later changes nothing of what was read. -/
theorem drain_append (b more : List α) (s : σ) :
    F.drain (b ++ more) s = F.goOn more (F.drain b s) := by
  induction b, s using drain_induction (F := F) with
  | wait b s h =>
      rw [drain_of_lt h, goOn]
      rcases F.drain (b ++ more) s with ⟨e | xs, b', s'⟩ <;> rfl
  | error b s e s' h hstep =>
      have h' : F.need s ≤ (b ++ more).length := by
        rw [List.length_append]
        omega
      rw [drain_error h hstep, drain_error h' (by rwa [List.take_append_of_le_length h])]
      rfl
  | ok b s xs s' h hstep ih =>
      have h' : F.need s ≤ (b ++ more).length := by
        rw [List.length_append]
        omega
      rw [drain_ok h hstep, drain_ok h' (by rwa [List.take_append_of_le_length h]),
        List.drop_append_of_le_length ((F.used_le s).trans h), ih, goOn_map]

/-! ## Whole frames -/

section Frames

variable {γ : Type} (encode : γ → List α)

/-- A stream of frames, and an invariant of those to come, the state and the values so far.
If every step stays within the first frame, and either keeps it or uses it up, a drain ends
with the invariant for the frames that are left. -/
theorem drain_frames (inv : List γ → σ → List β → Prop)
    (hnil : ∀ {s out}, inv [] s out → 0 < F.need s)
    (hneed : ∀ {f frames s out}, inv (f :: frames) s out → F.need s ≤ (encode f).length)
    (hstep : ∀ {f frames s out}, inv (f :: frames) s out →
      ∃ xs s', F.step ((encode f).take (F.need s)) s = (.ok xs, s') ∧
        ((F.used s = 0 ∧ inv (f :: frames) s' (out ++ xs)) ∨
          (F.used s = (encode f).length ∧ inv frames s' (out ++ xs))))
    {frames : List γ} {out : List β} {later : List α} (hinv : inv frames s out)
    (hb : b ++ later = frames.flatMap encode) :
    ∃ xs b' s' frames', F.drain b s = (.ok xs, b', s') ∧ inv frames' s' (out ++ xs) ∧
      b' ++ later = frames'.flatMap encode ∧ b'.length < F.need s' := by
  have hfirst : ∀ {b s frames out}, inv frames s out → b ++ later = frames.flatMap encode →
      F.need s ≤ b.length → ∃ f frames', frames = f :: frames' ∧
        ∃ xs s', F.step (b.take (F.need s)) s = (.ok xs, s') ∧
          ∃ frames'', inv frames'' s' (out ++ xs) ∧
            b.drop (F.used s) ++ later = frames''.flatMap encode := by
    intro b s frames out hinv hb hle
    cases frames with
    | nil =>
        obtain ⟨rfl, -⟩ := List.append_eq_nil_iff.mp (hb.trans List.flatMap_nil)
        exact absurd (hnil hinv) (not_lt.mpr hle)
    | cons f frames =>
        rw [List.flatMap_cons] at hb
        -- a step reads from the first frame
        have htake : b.take (F.need s) = (encode f).take (F.need s) := by
          have hlater : (b ++ later).take (F.need s) = b.take (F.need s) :=
            List.take_append_of_le_length hle
          rw [← hlater, hb, List.take_append_of_le_length (hneed hinv)]
        obtain ⟨xs, s', hok, hcases⟩ := hstep hinv
        refine ⟨f, frames, rfl, xs, s', by rw [htake, hok], ?_⟩
        rcases hcases with ⟨hzero, hinv'⟩ | ⟨hall, hinv'⟩
        · exact ⟨f :: frames, hinv', by rw [hzero, List.drop_zero, hb, List.flatMap_cons]⟩
        · refine ⟨frames, hinv', ?_⟩
          rw [← List.drop_append_of_le_length ((F.used_le s).trans hle), hb, hall, List.drop_left]
  induction b, s using drain_induction (F := F) generalizing frames out with
  | wait b s h => exact ⟨[], b, s, frames, drain_of_lt h, by rwa [List.append_nil], hb, h⟩
  | error b s e s' h herror =>
      obtain ⟨-, -, -, xs, t, hok, -⟩ := hfirst hinv hb h
      exact absurd (herror.symm.trans hok) (by simp)
  | ok b s xs s' h hok ih =>
      obtain ⟨-, -, -, ys, t, hok', frames', hinv', hb'⟩ := hfirst hinv hb h
      obtain ⟨hxs, rfl⟩ := Prod.mk.inj (hok.symm.trans hok')
      obtain rfl := Except.ok.inj hxs
      obtain ⟨zs, b', u, frames'', hdrain, hend, hrest, hwaits⟩ := ih hinv' hb'
      refine ⟨xs ++ zs, b', u, frames'', ?_, by rwa [← List.append_assoc], hrest, hwaits⟩
      rw [drain_ok h hok, hdrain]
      rfl

end Frames

end Framing
