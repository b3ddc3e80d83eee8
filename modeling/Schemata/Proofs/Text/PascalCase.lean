import Mathlib.Data.List.Basic
import Schemata.Proofs.Text.Casing

namespace Schemata.Text

/-! Texts that Pascal casing leaves as they are. Casing makes no word shorter, so it must
leave every word of such a text as it is. -/

/-- Every word is a capital followed by small letters. -/
def IsPascalCase (text : List Char) : Prop :=
  ∀ word ∈ splitByCase .undetermined [] text, capitalized word = word

instance (text : List Char) : Decidable (IsPascalCase text) :=
  List.decidableBAll _ _

theorem stretches_of_alphanumeric {text : List Char} (letters : IsAlphanumericText text)
    (nonempty : text ≠ []) : stretches text = [text] := by
  have free : ∀ char ∈ text, (!isAlphanumeric char) = false := by
    intro char member
    simp [letters char member]
  rw [stretches, splitWhere_of_free free]
  simp [nonempty]

theorem pascalCase_of_alphanumeric {name : String}
    (letters : IsAlphanumericText name.toList) (nonempty : name.toList ≠ []) :
    (pascalCase name).toList =
      (splitByCase .undetermined [] name.toList).flatMap capitalized := by
  rw [pascalCase, String.toList_ofList, words, stretches_of_alphanumeric letters nonempty]
  simp

/-! Words and their casing. -/

theorem one_le_length_lowercase (char : Char) : 1 ≤ (lowercase char).length := by
  unfold lowercase
  split <;> simp

theorem one_le_length_uppercase (char : Char) : 1 ≤ (uppercase char).length := by
  unfold uppercase
  cases found : uppercaseSequences.lookup char.toNat with
  | none => simp
  | some mapped =>
      have form := isCapitalForm_uppercaseSequences _ (Entries.mem_of_lookup found)
      rw [Option.getD_some]
      exact List.length_pos_iff.mpr form.nonempty

theorem length_le_lowered (word : List Char) : word.length ≤ (lowered word).length := by
  induction word using lowered.induct with
  | case1 => simp [lowered]
  | case2 => simp [lowered]
  | case3 char rest other induction =>
      have here := one_le_length_lowercase char
      rw [lowered.eq_3 char rest other, List.length_append, List.length_cons]
      omega

theorem length_le_capitalized (word : List Char) :
    word.length ≤ (capitalized word).length := by
  cases word with
  | nil => simp [capitalized]
  | cons char rest =>
      have here := one_le_length_uppercase char
      have later := length_le_lowered rest
      rw [capitalized, List.length_append, List.length_cons]
      omega

theorem length_flatten_le (words : List (List Char)) :
    words.flatten.length ≤ (words.flatMap capitalized).length := by
  induction words with
  | nil => simp
  | cons word rest induction =>
      have here := length_le_capitalized word
      rw [List.flatten_cons, List.flatMap_cons, List.length_append, List.length_append]
      omega

theorem flatMap_capitalized_eq_flatten_iff {words : List (List Char)} :
    words.flatMap capitalized = words.flatten ↔ ∀ word ∈ words, capitalized word = word := by
  induction words with
  | nil => simp
  | cons word rest induction =>
      rw [List.flatMap_cons, List.flatten_cons, List.forall_mem_cons, ← induction]
      constructor
      · intro same
        have here := length_le_capitalized word
        have later := length_flatten_le rest
        have lengths := congrArg List.length same
        simp only [List.length_append] at lengths
        apply List.append_inj same
        omega
      · rintro ⟨here, later⟩
        rw [here, later]

theorem pascalCase_eq_self_iff {name : String} (letters : IsAlphanumericText name.toList)
    (nonempty : name.toList ≠ []) : pascalCase name = name ↔ IsPascalCase name.toList := by
  have whole := flatten_splitByCase .undetermined [] name.toList nonempty
  rw [List.reverse_nil, List.nil_append] at whole
  rw [IsPascalCase, ← flatMap_capitalized_eq_flatten_iff, whole,
    ← pascalCase_of_alphanumeric letters nonempty, String.toList_inj]

/-! No casing begins with a digit that the text does not begin with. -/

def BeginsPlain : List Char → Prop :=
  Begins (·.isDigit = false)

instance (text : List Char) : Decidable (BeginsPlain text) :=
  inferInstanceAs (Decidable (Begins _ text))

theorem beginsPlain_singleton {char : Char} (plain : char.isDigit = false) :
    BeginsPlain [char] := by
  rintro _ ⟨⟩
  exact plain

theorem beginsPlain_uppercase {char : Char} (plain : char.isDigit = false) :
    BeginsPlain (uppercase char) := by
  have sequences : ∀ entry ∈ uppercaseSequences, BeginsPlain entry.2 := by
    decide +kernel
  have capitals : ∀ code < 0x5B, 0x41 ≤ code → (Char.ofNat code).isDigit = false := by
    decide
  unfold uppercase
  cases found : uppercaseSequences.lookup char.toNat with
  | some mapped => exact sequences _ (Entries.mem_of_lookup found)
  | none =>
      rw [Option.getD_none]
      apply beginsPlain_singleton
      rcases shifted_cases lands_uppercaseOffsets char with
        same | beyond | ⟨code, above, below, same⟩
      · rwa [same]
      · exact not_digit_of_beyond beyond
      · rw [same]
        exact capitals code (Nat.lt_succ_of_le below) above

theorem beginsPlain_flatMap_capitalized {words : List (List Char)}
    (plain : BeginsPlain words.flatten) : BeginsPlain (words.flatMap capitalized) := by
  induction words with
  | nil => exact plain
  | cons word rest induction =>
      cases word with
      | nil => exact induction plain
      | cons char more =>
          have here := beginsPlain_uppercase (plain char rfl)
          obtain ⟨capital, others, mapped⟩ := List.exists_cons_of_ne_nil
            (List.length_pos_iff.mp (one_le_length_uppercase char))
          rw [List.flatMap_cons, capitalized, mapped]
          rw [mapped] at here
          exact here

theorem beginsPlain_pascalCase {name : String} (letters : IsAlphanumericText name.toList)
    (nonempty : name.toList ≠ []) (plain : BeginsPlain name.toList) :
    BeginsPlain (pascalCase name).toList := by
  rw [pascalCase_of_alphanumeric letters nonempty]
  apply beginsPlain_flatMap_capitalized
  rwa [flatten_splitByCase _ _ _ nonempty]

/-! ASCII letters keep all but their case. -/

def IsAsciiText (text : List Char) : Prop :=
  ∀ char ∈ text, char.toNat < 128

instance (text : List Char) : Decidable (IsAsciiText text) :=
  List.decidableBAll _ text

theorem caseless_lowercase {char : Char} (ascii : char.toNat < 128) :
    (lowercase char).map Char.toLower = [char.toLower] :=
  forall_ascii (fun char => (lowercase char).map Char.toLower = [char.toLower])
    (by decide +kernel) ascii

theorem caseless_uppercase {char : Char} (ascii : char.toNat < 128) :
    (uppercase char).map Char.toLower = [char.toLower] :=
  forall_ascii (fun char => (uppercase char).map Char.toLower = [char.toLower])
    (by decide +kernel) ascii

theorem caseless_lowered {word : List Char} (ascii : IsAsciiText word) :
    (lowered word).map Char.toLower = word.map Char.toLower := by
  induction word using lowered.induct with
  | case1 => rfl
  | case2 => exact absurd (ascii 'Σ' List.mem_cons_self) (by decide)
  | case3 char rest other induction =>
      obtain ⟨here, later⟩ := List.forall_mem_cons.mp ascii
      rw [lowered.eq_3 char rest other, List.map_append, caseless_lowercase here,
        induction later, List.map_cons, List.singleton_append]

theorem caseless_capitalized {word : List Char} (ascii : IsAsciiText word) :
    (capitalized word).map Char.toLower = word.map Char.toLower := by
  cases word with
  | nil => rfl
  | cons char rest =>
      obtain ⟨here, later⟩ := List.forall_mem_cons.mp ascii
      rw [capitalized, List.map_append, caseless_uppercase here, caseless_lowered later,
        List.map_cons, List.singleton_append]

theorem caseless_pascalCase {name : String} (letters : IsAlphanumericText name.toList)
    (nonempty : name.toList ≠ []) (ascii : IsAsciiText name.toList) :
    (pascalCase name).toList.map Char.toLower = name.toList.map Char.toLower := by
  have whole := flatten_splitByCase .undetermined [] name.toList nonempty
  rw [List.reverse_nil, List.nil_append] at whole
  have words_ : ∀ word ∈ splitByCase .undetermined [] name.toList, IsAsciiText word := by
    intro word member char inside
    apply ascii
    rw [← whole]
    exact List.mem_flatten_of_mem member inside
  rw [pascalCase_of_alphanumeric letters nonempty, List.map_flatMap]
  calc
    _ = (splitByCase .undetermined [] name.toList).flatMap (List.map Char.toLower) :=
      List.flatMap_congr fun word member => caseless_capitalized (words_ word member)
    _ = (splitByCase .undetermined [] name.toList).flatten.map Char.toLower := by
      rw [List.map_flatten, List.flatMap_def]
    _ = name.toList.map Char.toLower := by rw [whole]

theorem isAlphanumericText_of_ascii {text : List Char} (ascii : IsAsciiText text)
    (letters : IsWordText text) : IsAlphanumericText text := by
  intro char member
  have small := ascii char member
  exact forall_ascii (fun char => char.isAlphanum = true → isAlphanumeric char = true)
    (by decide +kernel) small (letters char member small)

end Schemata.Text
