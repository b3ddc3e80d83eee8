import Mathlib.Data.List.Basic
import Mathlib.Data.List.Infix
import Mathlib.Data.List.TakeWhile
import Schemata.Emission.Source

namespace Schemata

/-! Lines one below the other. What is cut off at the end of a text does not reach beyond
its last visible line. -/

namespace Text

variable {left right text : List Char}

theorem trimEnd_append (left right : List Char) :
    trimEnd (left ++ right) =
      if trimEnd right = [] then trimEnd left else left ++ trimEnd right := by
  simp only [trimEnd, trimStart, List.reverse_append, List.dropWhile_append,
    List.isEmpty_iff, List.reverse_eq_nil_iff]
  split
  · rfl
  · rw [List.reverse_append, List.reverse_reverse]

theorem trimEnd_eq_nil_iff : trimEnd text = [] ↔ ∀ char ∈ text, isBlank char = true := by
  simp only [trimEnd, trimStart, List.reverse_eq_nil_iff, List.dropWhile_eq_nil_iff,
    List.mem_reverse]

theorem trimEnd_append_of_visible (visible : ∃ char ∈ right, isBlank char = false) :
    trimEnd (left ++ right) = left ++ trimEnd right := by
  obtain ⟨char, member, shown⟩ := visible
  rw [trimEnd_append, if_neg]
  intro blank
  rw [trimEnd_eq_nil_iff.mp blank char member] at shown
  cases shown

theorem trimEnd_concat {char : Char} (visible : isBlank char = false) :
    trimEnd (left ++ [char]) = left ++ [char] := by
  rw [trimEnd_append_of_visible ⟨char, List.mem_singleton_self char, visible⟩]
  simp [trimEnd, trimStart, visible]

/-- A text that begins with a word still does when blanks are cut off at its end. -/
theorem isPrefix_trimEnd {char : Char} (visible : isBlank char = false)
    (begins : left ++ [char] <+: text) : left ++ [char] <+: trimEnd text := by
  obtain ⟨rest, rfl⟩ := begins
  rw [trimEnd_append]
  split
  · rw [trimEnd_concat visible]
  · exact List.prefix_append _ _

end Text

variable {above below : List (List Char)}

theorem unlines_cons (line : List Char) (rest : List (List Char)) :
    unlines (line :: rest) = line ++ '\n' :: unlines rest := by
  rw [unlines, List.flatMap_cons, List.append_assoc]
  rfl

theorem unlines_append (above below : List (List Char)) :
    unlines (above ++ below) = unlines above ++ unlines below :=
  List.flatMap_append

theorem intercalate_append (separator : List Char) (present : below ≠ []) :
    separator.intercalate (above ++ below) =
      above.flatMap (· ++ separator) ++ separator.intercalate below := by
  induction above with
  | nil => rfl
  | cons line rest induction =>
      have more : rest ++ below ≠ [] := List.append_ne_nil_of_right_ne_nil rest present
      rw [List.cons_append, List.intercalate_cons_of_ne_nil more, induction]
      simp only [List.flatMap_cons, List.append_assoc]

theorem intercalate_append_eq_unlines (present : below ≠ []) :
    ['\n'].intercalate (above ++ below) = unlines above ++ ['\n'].intercalate below :=
  intercalate_append ['\n'] present

theorem mem_intercalate {line : List Char} (member : line ∈ below) :
    line ⊆ ['\n'].intercalate below := by
  obtain ⟨before, after, rfl⟩ := List.append_of_mem member
  rw [intercalate_append_eq_unlines (List.cons_ne_nil _ _)]
  refine List.subset_append_of_subset_right _ ?_
  cases after with
  | nil => rw [List.intercalate_singleton]; exact List.Subset.refl _
  | cons next rest =>
      rw [List.intercalate_cons_of_ne_nil (List.cons_ne_nil _ _), List.append_assoc]
      exact List.subset_append_left _ _

/-- Nothing is cut off above a visible line. -/
theorem joinLines_append
    (visible : ∃ line ∈ below, ∃ char ∈ line, Text.isBlank char = false) :
    joinLines (above ++ below) = unlines above ++ joinLines below := by
  obtain ⟨line, member, char, inside, shown⟩ := visible
  rw [joinLines, joinLines, intercalate_append_eq_unlines (List.ne_nil_of_mem member)]
  exact Text.trimEnd_append_of_visible ⟨char, mem_intercalate member inside, shown⟩

/-- Nothing is cut off below a line that ends visibly. -/
theorem joinLines_concat {line : List Char} {char : Char}
    (visible : Text.isBlank char = false) :
    joinLines (above ++ [line ++ [char]]) = ['\n'].intercalate (above ++ [line ++ [char]]) := by
  rw [joinLines, intercalate_append_eq_unlines (List.cons_ne_nil _ _), List.intercalate_singleton,
    ← List.append_assoc, Text.trimEnd_concat visible]

theorem flatMap_eq_intercalate (separator : List Char) {texts : List (List Char)}
    (present : texts ≠ []) :
    texts.flatMap (· ++ separator) = separator.intercalate texts ++ separator := by
  obtain ⟨above, last, rfl⟩ := (List.eq_nil_or_concat' texts).resolve_left present
  simp only [intercalate_append separator (List.cons_ne_nil last []),
    List.intercalate_singleton, List.flatMap_append, List.flatMap_singleton, List.append_assoc]

theorem unlines_eq_intercalate {lines : List (List Char)} (present : lines ≠ []) :
    unlines lines = ['\n'].intercalate lines ++ ['\n'] :=
  flatMap_eq_intercalate ['\n'] present

theorem intercalate_append_of_ne_nil (separator : List Char) (first : above ≠ [])
    (second : below ≠ []) :
    separator.intercalate (above ++ below) =
      separator.intercalate above ++ separator ++ separator.intercalate below := by
  rw [intercalate_append separator second, flatMap_eq_intercalate separator first]

end Schemata
