import Mathlib.Data.List.Basic

namespace Schemata.Text

/-! Replacing a pattern throughout a text, from left to right and without overlaps. -/

/-- The replaced text, after characters that belong to the latest occurrence. -/
def replacedAfter (pattern replacement : List Char) : Nat → List Char → List Char
  | _, [] => []
  | skipped + 1, _ :: rest => replacedAfter pattern replacement skipped rest
  | 0, char :: rest =>
      if pattern.isPrefixOf (char :: rest) then
        replacement ++ replacedAfter pattern replacement (pattern.length - 1) rest
      else char :: replacedAfter pattern replacement 0 rest

def replaceAll (pattern replacement text : List Char) : List Char :=
  replacedAfter pattern replacement 0 text

variable {pattern replacement : List Char}

theorem replaceAll_cons {char : Char} {rest : List Char}
    (differs : pattern.isPrefixOf (char :: rest) = false) :
    replaceAll pattern replacement (char :: rest) =
      char :: replaceAll pattern replacement rest := by
  rw [replaceAll, replacedAfter, differs]
  rfl

theorem replaceAll_pattern (first : Char) (more replacement rest : List Char) :
    replaceAll (first :: more) replacement (first :: (more ++ rest)) =
      replacement ++ replaceAll (first :: more) replacement rest := by
  have skips : ∀ text : List Char, replacedAfter (first :: more) replacement text.length
      (text ++ rest) = replaceAll (first :: more) replacement rest := by
    intro text
    induction text with
    | nil => rfl
    | cons char others induction => exact induction
  have occurs : (first :: more).isPrefixOf (first :: (more ++ rest)) = true :=
    List.isPrefixOf_iff_prefix.mpr (List.prefix_append _ _)
  rw [replaceAll, replacedAfter, if_pos occurs, List.length_cons, Nat.add_one_sub_one, skips]

end Schemata.Text
