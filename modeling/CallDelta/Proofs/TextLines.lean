import CallDelta.Files.Path

/-!
# Lines of a text

Lines are written one after the other, each with a line feed behind it, and read by cutting the text
at the line feeds. A line that has line feeds itself is read as several.

* `textLines_linesText`: the lines that are read, in terms of the lines that were written
* `length_linePieces`: how many lines are read where one was written
-/

namespace CallDelta

/-- Lines as they are printed. -/
def linesText (lines : List String) : String := String.join (lines.map (· ++ "\n"))

theorem linesText_cons (line : String) (lines : List String) :
    linesText (line :: lines) = (line ++ "\n") ++ linesText lines := by
  simp [linesText, String.join_cons]

/-- The lines of a text. Behind the last line feed there is a line only if it has text. -/
def textLines (text : String) : List String :=
  let stretches := splitAtChar '\n' text.toList
  (if stretches.getLast? = some [] then stretches.dropLast else stretches).map String.ofList

/-- The lines that a text takes up if it is written as one line. -/
def linePieces (line : String) : List String := (splitAtChar '\n' line.toList).map String.ofList

/-! ## Cutting at a character -/

section

variable {sep : Char}

theorem splitAtChar_ne_nil (cs : List Char) : splitAtChar sep cs ≠ [] := by
  cases cs with
  | nil => simp [splitAtChar]
  | cons c cs =>
    rw [splitAtChar]
    split
    · simp
    · split <;> simp

theorem splitAtChar_append_sep (before after : List Char) :
    splitAtChar sep (before ++ sep :: after) = splitAtChar sep before ++ splitAtChar sep after := by
  induction before with
  | nil => simp [splitAtChar]
  | cons c before ih =>
    rw [List.cons_append, splitAtChar, splitAtChar, ih]
    split
    · rfl
    · cases h : splitAtChar sep before with
      | nil => exact absurd h (splitAtChar_ne_nil before)
      | cons part parts => rfl

theorem splitAtChar_of_notMem {cs : List Char} (h : sep ∉ cs) : splitAtChar sep cs = [cs] := by
  induction cs with
  | nil => rfl
  | cons c cs ih =>
    rw [List.mem_cons, not_or] at h
    obtain ⟨hc, hcs⟩ := h
    rw [splitAtChar, if_neg (Ne.symm hc), ih hcs]

theorem notMem_of_mem_splitAtChar {cs part : List Char} (h : part ∈ splitAtChar sep cs) :
    sep ∉ part := by
  induction cs generalizing part with
  | nil =>
    rw [List.mem_singleton.mp h]
    exact List.not_mem_nil
  | cons c cs ih =>
    rw [splitAtChar] at h
    split at h
    next =>
      rcases List.mem_cons.mp h with rfl | hrest
      · exact List.not_mem_nil
      · exact ih hrest
    next hc =>
      split at h
      next hnil => exact absurd hnil (splitAtChar_ne_nil cs)
      next first others hcons =>
        rcases List.mem_cons.mp h with rfl | hrest
        · rw [List.mem_cons, not_or]
          exact ⟨Ne.symm hc, ih (by rw [hcons]; exact List.mem_cons_self)⟩
        · exact ih (by rw [hcons]; exact List.mem_cons_of_mem _ hrest)

theorem length_splitAtChar (cs : List Char) : (splitAtChar sep cs).length = cs.count sep + 1 := by
  induction cs with
  | nil => rfl
  | cons c cs ih =>
    rw [splitAtChar]
    split
    next hc => rw [List.length_cons, ih, hc, List.count_cons_self]
    next hc =>
      rw [List.count_cons_of_ne hc, ← ih]
      split
      next hnil => exact absurd hnil (splitAtChar_ne_nil cs)
      next part parts hcons => rw [hcons, List.length_cons, List.length_cons]

end

/-! ## Lines that are written and read -/

theorem linePieces_of_notMem {line : String} (h : '\n' ∉ line.toList) :
    linePieces line = [line] := by
  rw [linePieces, splitAtChar_of_notMem h, List.map_singleton, String.ofList_toList]

theorem length_linePieces (line : String) :
    (linePieces line).length = line.toList.count '\n' + 1 := by
  rw [linePieces, List.length_map, length_splitAtChar]

theorem notMem_of_mem_linePieces {line piece : String} (h : piece ∈ linePieces line) :
    '\n' ∉ piece.toList := by
  obtain ⟨part, hpart, rfl⟩ := List.mem_map.mp h
  rw [String.toList_ofList]
  exact notMem_of_mem_splitAtChar hpart

theorem splitAtChar_linesText (lines : List String) :
    splitAtChar '\n' (linesText lines).toList =
      lines.flatMap (fun line => splitAtChar '\n' line.toList) ++ [[]] := by
  induction lines with
  | nil => rfl
  | cons line lines ih =>
    have hline : (linesText (line :: lines)).toList =
        line.toList ++ '\n' :: (linesText lines).toList := by
      simp [linesText_cons, String.toList_append]
    rw [hline, splitAtChar_append_sep, ih, List.flatMap_cons, List.append_assoc]

/-- **The lines of a file** are the pieces of the lines that were written. -/
theorem textLines_linesText (lines : List String) :
    textLines (linesText lines) = lines.flatMap linePieces := by
  unfold textLines
  rw [splitAtChar_linesText]
  simp only [List.getLast?_concat, if_true, List.dropLast_concat, List.map_flatMap]
  rfl

end CallDelta
