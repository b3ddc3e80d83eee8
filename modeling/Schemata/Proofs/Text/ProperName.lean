import Mathlib.Data.Char

namespace Schemata.Text

/-! Names that begin with a capital, as those of modules, members and constructors do. -/

/-- A capital letter of ASCII, followed by letters and digits of ASCII and underscores. -/
def IsProperName (text : List Char) : Prop :=
  ∃ first rest, text = first :: rest ∧ first.isUpper = true ∧
    ∀ char ∈ rest, char.isAlphanum = true ∨ char = '_'

variable {text : List Char}

theorem isProperName_iff :
    IsProperName text ↔
      text.head?.any Char.isUpper = true ∧
        text.all (fun char => char.isAlphanum || char == '_') = true := by
  cases text with
  | nil => exact iff_of_false nofun nofun
  | cons first rest =>
      rw [List.head?_cons, Option.any_some, List.all_cons, Bool.and_eq_true, List.all_eq_true]
      constructor
      · rintro ⟨_, _, ⟨⟩, upper, letters⟩
        have letter : first.isAlphanum = true := by
          change (first.isUpper || first.isLower || first.isDigit) = true
          rw [upper, Bool.true_or, Bool.true_or]
        exact ⟨upper, by rw [letter, Bool.true_or], by simpa using letters⟩
      · rintro ⟨upper, -, letters⟩
        exact ⟨first, rest, rfl, upper, by simpa using letters⟩

instance (text : List Char) : Decidable (IsProperName text) :=
  decidable_of_iff _ isProperName_iff.symm

namespace IsProperName

variable (proper : IsProperName text)

include proper

theorem ne_nil : text ≠ [] := by
  obtain ⟨_, _, rfl, -⟩ := proper
  exact List.cons_ne_nil _ _

theorem not_mem {mark : Char} (symbol : (mark.isAlphanum || mark == '_') = false) :
    mark ∉ text := by
  intro member
  have letter := List.all_eq_true.mp (isProperName_iff.mp proper).2 mark member
  rw [symbol] at letter
  cases letter

theorem head_ne {mark : Char} (other : mark.isUpper = false) : text.head? ≠ some mark := by
  obtain ⟨first, rest, rfl, upper, -⟩ := proper
  rintro ⟨⟩
  rw [other] at upper
  cases upper

end IsProperName

end Schemata.Text
