import Schemata.Proofs.Text.CaseMapping
import Schemata.Text.Split

namespace Schemata.Text

/-! The pieces between separators. A separator takes a text apart into what is left and
right of it, and no piece holds one. -/

variable {separates : Char → Bool} {char : Char} {piece text left right : List Char}

theorem splitWhere_eq_splitOnP (separates : Char → Bool) (text : List Char) :
    splitWhere separates text = text.splitOnP separates := by
  induction text with
  | nil => rfl
  | cons char rest induction =>
      rw [splitWhere, List.splitOnP_cons_eq_if_modifyHead, induction]
      obtain ⟨first, more, pieces⟩ :=
        List.exists_cons_of_ne_nil (List.splitOnP_ne_nil separates rest)
      rw [pieces]
      rfl

theorem splitWhere_cons {first : List Char} {more : List (List Char)}
    (plain : separates char = false) (rest : splitWhere separates text = first :: more) :
    splitWhere separates (char :: text) = (char :: first) :: more := by
  rw [splitWhere, plain, rest]
  rfl

theorem splitWhere_append {first : List Char} {more : List (List Char)}
    (free : ∀ char ∈ piece, separates char = false)
    (rest : splitWhere separates text = first :: more) :
    splitWhere separates (piece ++ text) = (piece ++ first) :: more := by
  induction piece with
  | nil => exact rest
  | cons char others induction =>
      obtain ⟨here, later⟩ := List.forall_mem_cons.mp free
      exact splitWhere_cons here (induction later)

theorem splitWhere_of_free (free : ∀ char ∈ piece, separates char = false) :
    splitWhere separates piece = [piece] := by
  rw [splitWhere_eq_splitOnP, List.splitOnP_eq_singleton free]

theorem splitWhere_append_separator (separator : separates char = true) :
    splitWhere separates (left ++ char :: right) =
      splitWhere separates left ++ splitWhere separates right := by
  simp only [splitWhere_eq_splitOnP, List.splitOnP_append_cons left right separator]

theorem not_separates_of_mem (member : piece ∈ splitWhere separates text) :
    ∀ char ∈ piece, separates char = false := by
  induction text generalizing piece with
  | nil =>
      obtain rfl := List.mem_singleton.mp member
      nofun
  | cons char rest induction =>
      cases plain : separates char with
      | true =>
          rw [splitWhere, if_pos plain] at member
          rcases List.mem_cons.mp member with rfl | later
          · nofun
          · exact induction later
      | false =>
          cases pieces : splitWhere separates rest with
          | nil =>
              rw [splitWhere_eq_splitOnP] at pieces
              exact absurd pieces (List.splitOnP_ne_nil separates rest)
          | cons first more =>
              rw [pieces] at induction
              rw [splitWhere_cons plain pieces] at member
              rcases List.mem_cons.mp member with rfl | later
              · exact List.forall_mem_cons.mpr ⟨plain, induction List.mem_cons_self⟩
              · exact induction (List.mem_cons_of_mem _ later)

/-- What stands in a piece stands in the text. -/
theorem subset_of_mem_splitWhere (member : piece ∈ splitWhere separates text) :
    piece ⊆ text := by
  induction text generalizing piece with
  | nil =>
      obtain rfl := List.mem_singleton.mp member
      exact List.Subset.refl _
  | cons char rest induction =>
      cases plain : separates char with
      | true =>
          rw [splitWhere, if_pos plain] at member
          rcases List.mem_cons.mp member with rfl | later
          · exact List.nil_subset _
          · exact List.subset_cons_of_subset _ (induction later)
      | false =>
          cases pieces : splitWhere separates rest with
          | nil =>
              rw [splitWhere_eq_splitOnP] at pieces
              exact absurd pieces (List.splitOnP_ne_nil separates rest)
          | cons first more =>
              rw [pieces] at induction
              rw [splitWhere_cons plain pieces] at member
              rcases List.mem_cons.mp member with rfl | later
              · exact List.cons_subset_cons _ (induction List.mem_cons_self)
              · exact List.subset_cons_of_subset _ (induction (List.mem_cons_of_mem _ later))

/-! The words of a text are its pieces that are not empty. -/

def wordsBetween (separates : Char → Bool) (text : List Char) : List (List Char) :=
  (splitWhere separates text).filter (!·.isEmpty)

def IsWordBetween (separates : Char → Bool) (text : List Char) : Prop :=
  text ≠ [] ∧ ∀ char ∈ text, separates char = false

instance (text : List Char) : Decidable (IsWordBetween separates text) :=
  @instDecidableAnd _ _ inferInstance (List.decidableBAll _ text)

theorem wordsBetween_word (word : IsWordBetween separates text) :
    wordsBetween separates text = [text] := by
  obtain ⟨nonempty, free⟩ := word
  rw [wordsBetween, splitWhere_of_free free]
  exact List.filter_cons_of_pos (by simpa using nonempty)

theorem wordsBetween_separator (separator : separates char = true) (left right : List Char) :
    wordsBetween separates (left ++ char :: right) =
      wordsBetween separates left ++ wordsBetween separates right := by
  rw [wordsBetween, splitWhere_append_separator separator, List.filter_append]
  rfl

theorem wordsBetween_cons (separator : separates char = true) (text : List Char) :
    wordsBetween separates (char :: text) = wordsBetween separates text :=
  wordsBetween_separator separator [] text

theorem wordsBetween_concat (separator : separates char = true) (text : List Char) :
    wordsBetween separates (text ++ [char]) = wordsBetween separates text :=
  (wordsBetween_separator separator text []).trans (List.append_nil _)

theorem isWordBetween_of_isWordText (apart : ∀ char, IsWordChar char → separates char = false)
    (nonempty : text ≠ []) (letters : IsWordText text) : IsWordBetween separates text :=
  ⟨nonempty, fun char member => apart char (letters char member)⟩

end Schemata.Text
