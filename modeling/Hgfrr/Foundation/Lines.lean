import Mathlib

/-!
# Lines of a text

A text is read line by line. The last line may lack its newline, and nothing follows a
newline at the end.
-/

namespace Lines

variable {α : Type*}

/-- Lines, each with a newline after it. -/
def unlines (newline : α) (lines : List (List α)) : List α :=
  lines.flatMap fun line => line ++ [newline]

variable {newline : α} {line text : List α} {lines lines' : List (List α)}

@[simp] theorem unlines_nil : unlines newline [] = [] := rfl

@[simp] theorem unlines_cons : unlines newline (line :: lines) =
    line ++ newline :: unlines newline lines := by simp [unlines]

@[simp] theorem unlines_append : unlines newline (lines ++ lines') =
    unlines newline lines ++ unlines newline lines' := by simp [unlines]

theorem unlines_flatten (parts : List (List (List α))) :
    unlines newline parts.flatten = parts.flatMap (unlines newline) := by
  induction parts with
  | nil => rfl
  | cons part parts ih => rw [List.flatten_cons, unlines_append, ih, List.flatMap_cons]

variable [DecidableEq α]

/-- Read the lines of a text, when the part `line` of the first has been read. -/
def getlines (newline : α) : (line text : List α) → List (List α)
  | line, [] => if line = [] then [] else [line]
  | line, c :: text =>
      if c = newline then line :: getlines newline [] text
      else getlines newline (line ++ [c]) text

/-- The lines of a text: no line has a newline in it, and the text is the lines with a
newline after each, or after each but the last. -/
structure IsLines (newline : α) (text : List α) (lines : List (List α)) : Prop where
  noNewline : ∀ line ∈ lines, newline ∉ line
  whole : unlines newline lines =
    if text = [] ∨ text.getLast? = some newline then text else text ++ [newline]

theorem not_mem_getlines (hline : newline ∉ line) :
    ∀ other ∈ getlines newline line text, newline ∉ other := by
  induction text generalizing line with
  | nil =>
      rw [getlines]
      split
      next => simp
      next => simpa using hline
  | cons c text ih =>
      rw [getlines]
      split
      next =>
        rw [List.forall_mem_cons]
        exact ⟨hline, ih List.not_mem_nil⟩
      next hne =>
        apply ih
        simp only [List.mem_append, List.mem_singleton, not_or]
        exact ⟨hline, Ne.symm hne⟩

/-- Reading keeps everything, and ends the last line if it is not ended. -/
theorem unlines_getlines (hline : newline ∉ line) : unlines newline (getlines newline line text) =
    if line ++ text = [] ∨ (line ++ text).getLast? = some newline then line ++ text
    else line ++ text ++ [newline] := by
  induction text generalizing line with
  | nil =>
      rw [getlines, List.append_nil]
      split
      next hnil => simp [hnil]
      next hne =>
        have hlast : line.getLast? ≠ some newline := fun heq =>
          hline (List.mem_of_mem_getLast? heq)
        rw [if_neg (by simp [hne, hlast])]
        simp
  | cons c text ih =>
      rw [getlines]
      split
      next heq =>
        subst heq
        rw [unlines_cons, ih List.not_mem_nil, List.nil_append]
        cases text with
        | nil => simp
        | cons d text =>
            have hlast : (line ++ c :: d :: text).getLast? = (d :: text).getLast? := by
              rw [List.getLast?_append_of_ne_nil _ (List.cons_ne_nil _ _), List.getLast?_cons_cons]
            simp only [hlast, List.append_eq_nil_iff, reduceCtorEq, and_false, false_or]
            split <;> simp
      next hne =>
        rw [ih (by simp [hline, Ne.symm hne])]
        simp

theorem isLines_getlines (text : List α) : IsLines newline text (getlines newline [] text) :=
  ⟨not_mem_getlines List.not_mem_nil, unlines_getlines List.not_mem_nil⟩

end Lines
