import Schemata.Proofs.Emission.Layout
import Schemata.Proofs.Text.Split

namespace Schemata.Text

/-! The lines of a text, by what is taken for the end of one. -/

def isLineFeed (char : Char) : Bool :=
  char == '\n'

def isLineEnd (char : Char) : Bool :=
  char == '\n' || char == '\r'

/-- The lines that are ended, so without what stands behind the last end. -/
def endedLines (ends : Char → Bool) (text : List Char) : List (List Char) :=
  (splitWhere ends text).dropLast

variable {ends : Char → Bool} {line piece : List Char}

theorem splitWhere_ne_nil (ends : Char → Bool) (text : List Char) :
    splitWhere ends text ≠ [] :=
  splitWhere_eq_splitOnP ends text ▸ List.splitOnP_ne_nil ends text

/-- A line that is printed as one is as many as its own ends make of it. -/
theorem endedLines_unlines (feed : ends '\n' = true) (lines : List (List Char)) :
    endedLines ends (unlines lines) = lines.flatMap (splitWhere ends) := by
  induction lines with
  | nil => rfl
  | cons line rest induction =>
      rw [unlines_cons, endedLines, splitWhere_append_separator feed,
        List.dropLast_append_of_ne_nil (splitWhere_ne_nil _ _), List.flatMap_cons, ← induction,
        endedLines]

theorem tail_splitWhere_append (free : ∀ char ∈ piece, ends char = false) (text : List Char) :
    (splitWhere ends (piece ++ text)).tail = (splitWhere ends text).tail := by
  obtain ⟨first, more, pieces⟩ := List.exists_cons_of_ne_nil (splitWhere_ne_nil ends text)
  rw [splitWhere_append free pieces, pieces, List.tail_cons, List.tail_cons]

theorem tail_splitWhere_of_free (free : ∀ char ∈ piece, ends char = false) :
    (splitWhere ends piece).tail = [] := by
  rw [splitWhere_of_free free, List.tail_cons]

theorem not_mem_of_mem_lines {text : List Char} (member : line ∈ lines text) :
    '\n' ∉ line := by
  fun_induction lines text generalizing line with
  | case1 => cases member
  | case2 rest induction | case3 rest induction =>
      rcases List.mem_cons.mp member with rfl | later
      · exact List.not_mem_nil
      · exact induction later
  | case4 char rest plain =>
      rw [List.mem_singleton.mp member, List.mem_singleton]
      exact fun same => plain same.symm
  | case5 char rest plain _ first more pieces induction =>
      rw [pieces] at induction
      rcases List.mem_cons.mp member with rfl | later
      · rw [List.mem_cons, not_or]
        exact ⟨fun same => plain same.symm, induction List.mem_cons_self⟩
      · exact induction (List.mem_cons_of_mem _ later)

theorem trimEnd_subset (text : List Char) : trimEnd text ⊆ text := by
  intro char member
  have kept := (List.dropWhile_sublist isBlank).subset (List.mem_reverse.mp member)
  exact List.mem_reverse.mp kept

end Schemata.Text
