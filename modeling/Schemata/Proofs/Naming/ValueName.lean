import Schemata.Naming.ValueName
import Schemata.Proofs.Json.Printer
import Schemata.Proofs.Number.Shortest
import Schemata.Proofs.Text.ProperName

namespace Schemata

/-! Names of numbers. Minus and point have a spelling, a plus has none. It stands in the exponents
of the numbers from `10 ^ 16` on. -/

/-! Where a plus is written. -/

theorem plus_not_mem_naturalText (value : Nat) : '+' ∉ naturalText value := by
  intro member
  exact absurd (Nat.isDigit_of_mem_toDigits (by decide) (by decide) member) (by decide)

theorem plus_not_mem_integerText (value : Int) : '+' ∉ integerText value := by
  cases value with
  | ofNat value => exact plus_not_mem_naturalText value
  | negSucc value =>
      exact List.not_mem_cons_of_ne_of_not_mem (by decide) (plus_not_mem_naturalText (value + 1))

theorem plus_not_mem_zeros (count : Nat) : '+' ∉ List.replicate count '0' :=
  fun member => absurd (List.eq_of_mem_replicate member) (by decide)

theorem plus_not_mem_pointAt {digits : List Char} (absent : '+' ∉ digits) (places : Nat) :
    '+' ∉ pointAt places digits := by
  rw [pointAt, List.mem_append, List.mem_cons, not_or, not_or]
  exact ⟨fun member => absent (List.mem_of_mem_take member), by decide,
    fun member => absent (List.mem_of_mem_drop member)⟩

/-- In scientific notation the sign of the exponent is the only plus there can be. -/
theorem plus_mem_scientific (digits sign : List Char) (exponent : Int) :
    '+' ∉ digits →
    ('+' ∈ (match digits with
      | first :: second :: rest => first :: '.' :: second :: rest
      | short => short) ++ 'e' :: sign ++ integerText exponent ↔ '+' ∈ sign) := by
  intro absent
  have plain := plus_not_mem_integerText exponent
  simp only [List.append_assoc, List.cons_append, List.mem_append, List.mem_cons, plain,
    or_false, Char.reduceEq, false_or]
  refine or_iff_right ?_
  split
  · simpa only [List.mem_cons, Char.reduceEq, false_or] using absent
  · exact absent

theorem Decimal.plus_mem_text (value : Decimal) :
    '+' ∈ value.text ⟨['+']⟩ ↔ value.digits ≠ 0 ∧ 16 ≤ value.leading := by
  have absent := plus_not_mem_naturalText value.digits
  have leading_eq : ((naturalText value.digits).length : Int) + value.exponent - 1 =
      value.leading := rfl
  unfold Decimal.text
  dsimp only
  rw [leading_eq]
  split_ifs with zero plain whole small
  · exact iff_of_false (by decide) (fun reaches => reaches.1 zero)
  · refine iff_of_false ?_ (by omega)
    simp only [List.mem_append, absent, plus_not_mem_zeros, or_self, false_or]
    decide
  · exact iff_of_false (plus_not_mem_pointAt absent _) (by omega)
  · refine iff_of_false ?_ (by omega)
    simp only [List.cons_append, List.mem_cons, List.mem_append, absent, plus_not_mem_zeros,
      or_false]
    decide
  · exact iff_of_true ((plus_mem_scientific _ _ _ absent).mpr (List.mem_singleton_self '+'))
      (by omega)
  · exact iff_of_false (mt (plus_mem_scientific _ _ _ absent).mp List.not_mem_nil) (by omega)

theorem Binary64.plus_mem_text (value : Binary64) :
    '+' ∈ value.text ⟨['+']⟩ ↔ 10 ^ 16 ≤ |value.toRat| := by
  have unsigned : '+' ∈ value.text ⟨['+']⟩ ↔ '+' ∈ value.shortest.text ⟨['+']⟩ := by
    unfold Binary64.text
    dsimp only
    split
    · simp only [List.mem_cons, Char.reduceEq, false_or]
    · rfl
  rw [unsigned, Decimal.plus_mem_text, abs_toRat]
  by_cases zero : value.significand = 0
  · have shortest : value.shortest = ⟨0, 0⟩ := if_pos zero
    rw [shortest, magnitude_of_zero zero]
    exact iff_of_false (fun reaches => reaches.1 rfl) (by norm_num)
  · have nonzero := digits_shortest zero
    rw [and_iff_right nonzero, ← Decimal.pow_le_toRat_iff nonzero]
    exact shortest_reaches_iff zero

theorem Number.plus_mem_text (value : Number) :
    '+' ∈ value.text ↔ ∃ float, value = .float float ∧ 10 ^ 16 ≤ |float.toRat| := by
  cases value with
  | integer value => exact iff_of_false (plus_not_mem_integerText value) (by simp)
  | float value => simpa [Number.text] using value.plus_mem_text

/-! What is made of a numeral. -/

theorem mem_spelledNumber {value : Number} {letter : Char}
    (member : letter ∈ spelledNumber value) :
    letter.isAlphanum = true ∨ letter = '_' ∨ letter = '+' ∧ '+' ∈ value.text := by
  obtain ⟨char, written, among⟩ := List.mem_flatMap.mp member
  split at among
  · exact .inl (List.all_eq_true.mp (by decide : "Minus".toList.all Char.isAlphanum = true)
      letter among)
  · exact .inr (.inl (List.mem_singleton.mp among))
  · obtain rfl := List.mem_singleton.mp among
    have numeral := isNumeralText_number value letter written
    simp only [isNumeralChar, Bool.or_eq_true, beq_iff_eq] at numeral
    obtain (((digit | rfl) | rfl) | rfl) | rfl := numeral
    · exact .inl (by rw [Char.isAlphanum, digit, Bool.or_true])
    · contradiction
    · exact .inr (.inr ⟨rfl, written⟩)
    · contradiction
    · exact .inl rfl

theorem plus_mem_spelledNumber {value : Number} (written : '+' ∈ value.text) :
    '+' ∈ spelledNumber value :=
  List.mem_flatMap.mpr ⟨'+', written, List.mem_singleton_self '+'⟩

theorem isProperName_numeral_iff (value : Number) :
    Text.IsProperName (Literal.number value).valueName.toList ↔ '+' ∉ value.text := by
  have spelled : (Literal.number value).valueName.toList =
      'V' :: ("alue".toList ++ spelledNumber value) := by
    simp only [Literal.valueName, String.toList_append, String.toList_ofList]
    rfl
  rw [spelled]
  constructor
  · intro proper written
    have inside := List.mem_append_right "alue".toList (plus_mem_spelledNumber written)
    exact proper.not_mem (by decide) (List.mem_cons_of_mem 'V' inside)
  · intro absent
    refine ⟨'V', _, rfl, rfl, ?_⟩
    intro letter member
    rcases List.mem_append.mp member with front | member
    · exact .inl (List.all_eq_true.mp (by decide : "alue".toList.all Char.isAlphanum = true)
        letter front)
    · rcases mem_spelledNumber member with alphanumeric | underscore | ⟨-, written⟩
      · exact .inl alphanumeric
      · exact .inr underscore
      · exact absurd written absent

/-- The name of a numeric value, of which both targets make their names of members and
constructors, is an identifier as long as the value is no floating-point number from `10 ^ 16`
on. -/
theorem numeral_name_is_identifier_iff (value : Number) :
    Text.IsProperName (Literal.number value).valueName.toList ↔
      ∀ float, value = .float float → |float.toRat| < 10 ^ 16 := by
  rw [isProperName_numeral_iff, Number.plus_mem_text]
  push Not
  rfl

example : (Literal.number (.float ⟨false, 5 * 10 ^ 15, 1, by decide⟩)).valueName =
    "Value1e+16" := by
  decide +kernel

end Schemata
