import Schemata.Number.Notation
import Schemata.Proofs.Text.CaseMapping
import Schemata.Proofs.Text.Split
import Schemata.Text.Casing

namespace Schemata.Text

/-! What a casing is made of. The words of a name are letters and numbers, and none of its
letters is lost in them, so the Pascal casing of any name is a nonempty text that begins with
the capital form of a letter or number. -/

def IsAlphanumericText (text : List Char) : Prop :=
  ∀ char ∈ text, isAlphanumeric char = true

instance (text : List Char) : Decidable (IsAlphanumericText text) :=
  List.decidableBAll _ text

theorem alphanumeric_of_mem_stretches {text piece : List Char}
    (member : piece ∈ stretches text) : piece ≠ [] ∧ IsAlphanumericText piece := by
  obtain ⟨among, nonempty⟩ := List.mem_filter.mp member
  refine ⟨by simpa using nonempty, fun char inside => ?_⟩
  simpa using not_separates_of_mem among char inside

/-- Splitting by case loses nothing. -/
theorem flatten_splitByCase (mode : CaseMode) (pending text : List Char)
    (nonempty : text ≠ []) :
    (splitByCase mode pending text).flatten = pending.reverse ++ text := by
  induction mode, pending, text using splitByCase.induct with
  | case1 => exact absurd rfl nonempty
  | case2 mode pending last => simp [splitByCase]
  | case3 mode pending char next rest change induction =>
      rw [splitByCase, if_pos change, List.flatten_cons, induction (List.cons_ne_nil _ _)]
      simp
  | case4 mode pending char next rest change last induction =>
      rw [splitByCase, if_neg change, if_pos last, List.flatten_cons,
        induction (List.cons_ne_nil _ _)]
      simp
  | case5 mode pending char next rest change last induction =>
      rw [splitByCase, if_neg change, if_neg last, induction (List.cons_ne_nil _ _)]
      simp

theorem alphanumeric_splitByCase {piece word : List Char} (nonempty : piece ≠ [])
    (letters : IsAlphanumericText piece)
    (member : word ∈ splitByCase .undetermined [] piece) : IsAlphanumericText word := by
  intro char inside
  have whole := flatten_splitByCase .undetermined [] piece nonempty
  exact letters char (by simpa [whole] using List.mem_flatten_of_mem member inside)

theorem alphanumeric_words {name word : List Char} (member : word ∈ words name) :
    IsAlphanumericText word := by
  unfold words at member
  split at member
  · obtain rfl := List.mem_singleton.mp member
    decide +kernel
  · next pieces _ =>
    obtain ⟨piece, among, inside⟩ := List.mem_flatMap.mp member
    obtain ⟨nonempty, letters⟩ := alphanumeric_of_mem_stretches among
    exact alphanumeric_splitByCase nonempty letters inside

theorem flatten_words_ne_nil (name : List Char) : (words name).flatten ≠ [] := by
  unfold words
  split
  · decide
  · next other =>
    obtain ⟨piece, rest, pieces⟩ := List.exists_cons_of_ne_nil other
    have among : piece ∈ stretches name := pieces ▸ List.mem_cons_self
    have nonempty := (alphanumeric_of_mem_stretches among).1
    rw [pieces, List.flatMap_cons, List.flatten_append,
      flatten_splitByCase _ _ _ nonempty]
    simp [nonempty]

/-! Mapped words. -/

theorem isWordChar_lowered {word : List Char} (letters : IsAlphanumericText word) :
    IsWordText (lowered word) := by
  induction word using lowered.induct with
  | case1 => nofun
  | case2 => decide
  | case3 char rest other induction =>
      obtain ⟨here, later⟩ := List.forall_mem_cons.mp letters
      rw [lowered.eq_3 char rest other]
      exact List.forall_mem_append.mpr
        ⟨isWordChar_lowercase here, induction later⟩

theorem IsCapitalForm.append {mapped rest : List Char} (form : IsCapitalForm mapped)
    (letters : IsWordText rest) : IsCapitalForm (mapped ++ rest) where
  nonempty := List.append_ne_nil_of_left_ne_nil form.nonempty rest
  letters := List.forall_mem_append.mpr ⟨form.letters, letters⟩
  initial := by
    obtain ⟨char, more, rfl⟩ := List.exists_cons_of_ne_nil form.nonempty
    exact form.initial

theorem isCapitalForm_capitalized {word : List Char} (nonempty : word ≠ [])
    (letters : IsAlphanumericText word) : IsCapitalForm (capitalized word) := by
  obtain ⟨char, rest, rfl⟩ := List.exists_cons_of_ne_nil nonempty
  obtain ⟨here, later⟩ := List.forall_mem_cons.mp letters
  exact (isCapitalForm_uppercase here).append (isWordChar_lowered later)

theorem isCapitalForm_flatMap {words : List (List Char)} (nonempty : words.flatten ≠ [])
    (letters : ∀ word ∈ words, IsAlphanumericText word) :
    IsCapitalForm (words.flatMap capitalized) := by
  induction words with
  | nil => exact absurd rfl nonempty
  | cons word rest induction =>
      obtain ⟨here, later⟩ := List.forall_mem_cons.mp letters
      by_cases empty : word = []
      · subst empty
        exact induction nonempty later
      · refine (isCapitalForm_capitalized empty here).append ?_
        intro char member
        obtain ⟨other, among, inside⟩ := List.mem_flatMap.mp member
        have other_nonempty : other ≠ [] := by
          rintro rfl
          cases inside
        exact (isCapitalForm_capitalized other_nonempty (later other among)).letters
          char inside

theorem isCapitalForm_pascalCase (name : String) :
    IsCapitalForm (pascalCase name).toList := by
  rw [pascalCase, String.toList_ofList]
  exact isCapitalForm_flatMap (flatten_words_ne_nil _) fun _ => alphanumeric_words

theorem isWordText_naturalText (number : Nat) : IsWordText (naturalText number) := by
  intro char member _
  have digit := Nat.isDigit_of_mem_toDigits (by decide) (by decide) member
  simp only [Char.isAlphanum, digit, Bool.or_true]

end Schemata.Text
