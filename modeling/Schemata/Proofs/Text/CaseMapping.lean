import Schemata.Entries
import Schemata.Text.Alphanumeric
import Schemata.Text.CaseMapping

namespace Schemata.Text

/-! Case mappings keep to letters. An ASCII character among the letters of a word, in any
casing, is itself a letter or digit, and a capital one is never a small ASCII letter. -/

/-- No ASCII character but a letter or digit. -/
def IsWordChar (char : Char) : Prop :=
  char.toNat < 128 → char.isAlphanum = true

instance (char : Char) : Decidable (IsWordChar char) :=
  inferInstanceAs (Decidable (_ → _))

/-- No ASCII character but a capital letter or digit. -/
def IsInitial (char : Char) : Prop :=
  char.toNat < 128 → char.isUpper = true ∨ char.isDigit = true

instance (char : Char) : Decidable (IsInitial char) :=
  inferInstanceAs (Decidable (_ → _))

/-- No character is ASCII but letters and digits. -/
def IsWordText (text : List Char) : Prop :=
  ∀ char ∈ text, IsWordChar char

instance (text : List Char) : Decidable (IsWordText text) :=
  List.decidableBAll _ text

/-- The first character, if there is one, has the property. -/
def Begins (property : Char → Prop) (text : List Char) : Prop :=
  ∀ first ∈ text.head?, property first

instance (property : Char → Prop) [DecidablePred property] (text : List Char) :
    Decidable (Begins property text) :=
  Option.decidableForallMem text.head?

theorem forall_ascii (property : Char → Prop)
    (each : ∀ code < 128, property (Char.ofNat code)) {char : Char}
    (ascii : char.toNat < 128) : property char := by
  have here := each char.toNat ascii
  rwa [Char.ofNat_toNat] at here

theorem ascii_of_isDigit {char : Char} (digit : char.isDigit = true) :
    char.toNat < 128 := by
  have code : 48 ≤ char.toNat ∧ char.toNat ≤ 57 := Char.isDigit_iff_toNat.mp digit
  omega

theorem not_digit_of_beyond {char : Char} (beyond : 0x80 ≤ char.toNat) :
    char.isDigit = false := by
  rw [Bool.eq_false_iff]
  intro digit
  have ascii := ascii_of_isDigit digit
  omega

theorem not_upper_of_isDigit {char : Char} (digit : char.isDigit = true) :
    char.isUpper = false :=
  forall_ascii (fun char => char.isDigit = true → char.isUpper = false) (by decide)
    (ascii_of_isDigit digit) digit

theorem isWordChar_of_isAlphanumeric {char : Char} (letter : isAlphanumeric char) :
    IsWordChar char := by
  intro ascii
  exact forall_ascii (fun char => isAlphanumeric char = true → char.isAlphanum = true)
    (by decide +kernel) ascii letter

/-! Shifted characters. -/

theorem mem_of_offsetIn {offsets : List (CodeRun × Int)} {code : Nat} {offset : Int}
    (found : offsetIn offsets code = some offset) :
    ∃ run, (run, offset) ∈ offsets ∧ run.Covers code := by
  induction offsets with
  | nil => cases found
  | cons entry rest induction =>
      obtain ⟨run, held⟩ := entry
      unfold offsetIn at found
      split at found
      · cases found
      · split at found
        · next covers =>
          cases found
          exact ⟨run, List.mem_cons_self, covers⟩
        · obtain ⟨other, member, covers⟩ := induction found
          exact ⟨other, List.mem_cons_of_mem _ member, covers⟩

/-- All that a run is shifted to lies between two code points. -/
def LandsWithin (low high : Int) (entry : CodeRun × Int) : Prop :=
  low ≤ entry.1.first + entry.2 ∧ entry.1.last + entry.2 ≤ high

instance (low high : Int) (entry : CodeRun × Int) :
    Decidable (LandsWithin low high entry) :=
  inferInstanceAs (Decidable (_ ∧ _))

/-- Beyond ASCII there are two stretches of code points, around the surrogates. -/
def LandsBeyond (entry : CodeRun × Int) : Prop :=
  LandsWithin 0x80 0xD7FF entry ∨ LandsWithin 0xE000 0x10FFFF entry

instance (entry : CodeRun × Int) : Decidable (LandsBeyond entry) :=
  inferInstanceAs (Decidable (_ ∨ _))

theorem shifted_of_offsetIn {offsets : List (CodeRun × Int)} {char : Char}
    {offset : Int} (found : offsetIn offsets char.toNat = some offset) :
    ∃ entry ∈ offsets, ∀ low high : Nat, LandsWithin low high entry →
      ∃ code, low ≤ code ∧ code ≤ high ∧ shifted offsets char = Char.ofNat code := by
  obtain ⟨run, member, first, last, _⟩ := mem_of_offsetIn found
  refine ⟨_, member, ?_⟩
  rintro low high ⟨above, below⟩
  refine ⟨(char.toNat + offset).toNat, ?_, ?_, ?_⟩
  · dsimp only at above
    omega
  · dsimp only at below
    omega
  · rw [shifted, found]

theorem le_toNat_ofNat {code : Nat} (beyond : 0x80 ≤ code)
    (valid : code ≤ 0xD7FF ∨ 0xE000 ≤ code ∧ code ≤ 0x10FFFF) :
    0x80 ≤ (Char.ofNat code).toNat := by
  have isValid : code.isValidChar := by
    unfold Nat.isValidChar
    omega
  have same : (Char.ofNat code).toNat = code := by
    rw [Char.ofNat, dif_pos isValid]
    rfl
  omega

/-- What a table shifts to is beyond ASCII or in the one stretch of ASCII letters that the
table reaches. -/
theorem shifted_cases {offsets : List (CodeRun × Int)} {low high : Nat}
    (lands : ∀ entry ∈ offsets, LandsBeyond entry ∨ LandsWithin low high entry)
    (char : Char) :
    shifted offsets char = char ∨ 0x80 ≤ (shifted offsets char).toNat ∨
      ∃ code, low ≤ code ∧ code ≤ high ∧ shifted offsets char = Char.ofNat code := by
  cases found : offsetIn offsets char.toNat with
  | none => exact .inl (by rw [shifted, found])
  | some offset =>
      obtain ⟨entry, member, reaches⟩ := shifted_of_offsetIn found
      refine .inr ?_
      rcases lands entry member with (lower | upper) | ascii
      · obtain ⟨code, above, below, same⟩ := reaches 0x80 0xD7FF lower
        exact .inl (same ▸ le_toNat_ofNat above (.inl below))
      · obtain ⟨code, above, below, same⟩ := reaches 0xE000 0x10FFFF upper
        exact .inl (same ▸ le_toNat_ofNat (by omega) (.inr ⟨above, below⟩))
      · exact .inr (reaches low high ascii)

theorem lands_lowercaseOffsets : ∀ entry ∈ lowercaseOffsets,
    LandsBeyond entry ∨ LandsWithin (0x61 : Nat) (0x7A : Nat) entry := by
  decide +kernel

theorem lands_uppercaseOffsets : ∀ entry ∈ uppercaseOffsets,
    LandsBeyond entry ∨ LandsWithin (0x41 : Nat) (0x5A : Nat) entry := by
  decide +kernel

private theorem isWordChar_small : ∀ code < 0x7B, 0x61 ≤ code →
    IsWordChar (Char.ofNat code) := by
  decide

private theorem capital : ∀ code < 0x5B, 0x41 ≤ code →
    IsWordChar (Char.ofNat code) ∧ IsInitial (Char.ofNat code) := by
  decide

/-! Mapped characters. -/

theorem isWordChar_lowercase {char : Char} (letter : isAlphanumeric char) :
    IsWordText (lowercase char) := by
  unfold lowercase
  split
  · decide
  · intro mapped member
    obtain rfl := List.mem_singleton.mp member
    rcases shifted_cases lands_lowercaseOffsets char with
      same | beyond | ⟨code, above, below, same⟩
    · rw [same]
      exact isWordChar_of_isAlphanumeric letter
    · exact fun ascii => absurd ascii (by omega)
    · exact same ▸ isWordChar_small code (Nat.lt_succ_of_le below) above

/-- How the capital form of a character looks: it begins with a capital letter or with
what has no case, so never with a small ASCII letter. -/
structure IsCapitalForm (mapped : List Char) : Prop where
  nonempty : mapped ≠ []
  letters : IsWordText mapped
  initial : Begins IsInitial mapped

instance (mapped : List Char) : Decidable (IsCapitalForm mapped) :=
  decidable_of_iff (mapped ≠ [] ∧ IsWordText mapped ∧ Begins IsInitial mapped)
    ⟨fun ⟨nonempty, letters, initial⟩ => ⟨nonempty, letters, initial⟩,
      fun form => ⟨form.nonempty, form.letters, form.initial⟩⟩

private theorem isCapitalForm_ascii {char : Char} (ascii : char.toNat < 128) :
    isAlphanumeric char = true → IsCapitalForm (uppercase char) :=
  forall_ascii
    (fun char => isAlphanumeric char = true → IsCapitalForm (uppercase char))
    (by decide +kernel) ascii

theorem isCapitalForm_uppercaseSequences :
    ∀ entry ∈ uppercaseSequences, IsCapitalForm entry.2 := by
  decide +kernel

theorem isCapitalForm_singleton {char : Char} (letter : IsWordChar char)
    (initial : IsInitial char) : IsCapitalForm [char] where
  nonempty := List.cons_ne_nil _ _
  letters := by simpa [IsWordText] using letter
  initial := by simpa [Begins] using initial

theorem isCapitalForm_uppercase {char : Char} (letter : isAlphanumeric char) :
    IsCapitalForm (uppercase char) := by
  by_cases ascii : char.toNat < 128
  · exact isCapitalForm_ascii ascii letter
  · unfold uppercase
    cases found : uppercaseSequences.lookup char.toNat with
    | some mapped =>
        exact isCapitalForm_uppercaseSequences _ (Entries.mem_of_lookup found)
    | none =>
        rw [Option.getD_none]
        rcases shifted_cases lands_uppercaseOffsets char with
          same | beyond | ⟨code, above, below, same⟩
        · rw [same]
          exact isCapitalForm_singleton (fun small => absurd small ascii)
            fun small => absurd small ascii
        · exact isCapitalForm_singleton (fun small => absurd small (by omega))
            fun small => absurd small (by omega)
        · obtain ⟨word, initial⟩ := capital code (Nat.lt_succ_of_le below) above
          exact same ▸ isCapitalForm_singleton word initial

end Schemata.Text
