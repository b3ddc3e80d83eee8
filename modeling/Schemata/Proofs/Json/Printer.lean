import Schemata.Json.Printer
import Schemata.Proofs.Document.RoundTrip
import Schemata.Proofs.Text.CaseMapping

namespace Schemata

/-! The characters of JSON texts. -/

/-! Numerals. -/

def isNumeralChar (char : Char) : Bool :=
  char.isDigit || char == '-' || char == '+' || char == '.' || char == 'e'

def IsNumeralText (text : List Char) : Prop :=
  ∀ char ∈ text, isNumeralChar char = true

instance (text : List Char) : Decidable (IsNumeralText text) :=
  List.decidableBAll _ text

section

variable {left right : List Char} {char : Char}

theorem isNumeralText_append :
    IsNumeralText (left ++ right) ↔ IsNumeralText left ∧ IsNumeralText right :=
  List.forall_mem_append

theorem isNumeralText_cons :
    IsNumeralText (char :: left) ↔ isNumeralChar char = true ∧ IsNumeralText left :=
  List.forall_mem_cons

theorem IsNumeralText.subset (numeral : IsNumeralText right) (within : left ⊆ right) :
    IsNumeralText left :=
  fun char member => numeral char (within member)

end

theorem isNumeralText_zeros (count : Nat) : IsNumeralText (List.replicate count '0') := by
  intro char member
  rw [List.eq_of_mem_replicate member]
  rfl

theorem isNumeralText_naturalText (value : Nat) : IsNumeralText (naturalText value) := by
  intro char member
  have digit := Nat.isDigit_of_mem_toDigits (by decide) (by decide) member
  simp only [isNumeralChar, digit, Bool.true_or]

theorem isNumeralText_integerText (value : Int) : IsNumeralText (integerText value) := by
  cases value with
  | ofNat value => exact isNumeralText_naturalText value
  | negSucc value =>
      exact isNumeralText_cons.mpr ⟨rfl, isNumeralText_naturalText (value + 1)⟩

theorem isNumeralText_pointAt {digits : List Char} (numeral : IsNumeralText digits)
    (places : Nat) : IsNumeralText (pointAt places digits) := by
  refine isNumeralText_append.mpr ⟨numeral.subset (List.take_subset _ _), ?_⟩
  exact isNumeralText_cons.mpr ⟨rfl, numeral.subset (List.drop_subset _ _)⟩

/-- Digits with a point after the first, where there are more, and an exponent. -/
theorem isNumeralText_scientific (digits : List Char) {sign : List Char}
    (signed : IsNumeralText sign) (exponent : Int) :
    IsNumeralText digits →
    IsNumeralText
      ((match digits with
        | first :: second :: rest => first :: '.' :: second :: rest
        | short => short) ++ 'e' :: sign ++ integerText exponent) := by
  intro numeral
  have tail : IsNumeralText ('e' :: sign ++ integerText exponent) :=
    isNumeralText_append.mpr
      ⟨isNumeralText_cons.mpr ⟨rfl, signed⟩, isNumeralText_integerText exponent⟩
  rw [List.append_assoc]
  refine isNumeralText_append.mpr ⟨?_, tail⟩
  match digits, numeral with
  | [], numeral | [_], numeral => exact numeral
  | first :: second :: rest, numeral =>
      obtain ⟨leading, others⟩ := isNumeralText_cons.mp numeral
      exact isNumeralText_cons.mpr ⟨leading, isNumeralText_cons.mpr ⟨rfl, others⟩⟩

theorem isNumeralText_decimal (style : ExponentStyle)
    (sign : IsNumeralText style.positiveSign) (value : Decimal) :
    IsNumeralText (value.text style) := by
  have digits := isNumeralText_naturalText value.digits
  unfold Decimal.text
  dsimp only
  split_ifs
  · decide
  · simp only [isNumeralText_append]
    exact ⟨⟨digits, isNumeralText_zeros _⟩, by decide⟩
  · exact isNumeralText_pointAt digits _
  · simp only [List.cons_append, isNumeralText_append, isNumeralText_cons]
    exact ⟨rfl, rfl, isNumeralText_zeros _, digits⟩
  · exact isNumeralText_scientific _ sign _ digits
  · exact isNumeralText_scientific _ (by decide : IsNumeralText []) _ digits

theorem isNumeralText_number (value : Number) : IsNumeralText value.text := by
  cases value with
  | integer value => exact isNumeralText_integerText value
  | float value =>
      have magnitude := isNumeralText_decimal ⟨['+']⟩ (by decide) value.shortest
      simp only [Number.text, Binary64.text]
      split
      · exact isNumeralText_cons.mpr ⟨rfl, magnitude⟩
      · exact magnitude

/-! Control characters, among them the ends of lines. -/

def IsControlFree (text : List Char) : Prop :=
  ∀ char ∈ text, 32 ≤ char.toNat

instance (text : List Char) : Decidable (IsControlFree text) :=
  List.decidableBAll _ text

section

variable {left right : List Char} {char : Char}

theorem isControlFree_append :
    IsControlFree (left ++ right) ↔ IsControlFree left ∧ IsControlFree right :=
  List.forall_mem_append

theorem isControlFree_cons :
    IsControlFree (char :: left) ↔ 32 ≤ char.toNat ∧ IsControlFree left :=
  List.forall_mem_cons

theorem isControlFree_nil : IsControlFree [] :=
  nofun

theorem isControlFree_intercalate {separator : List Char} {parts : List (List Char)}
    (between : IsControlFree separator) (each : ∀ part ∈ parts, IsControlFree part) :
    IsControlFree (separator.intercalate parts) := by
  induction parts with
  | nil => exact isControlFree_nil
  | cons part rest induction =>
      obtain ⟨here, later⟩ := List.forall_mem_cons.mp each
      cases rest with
      | nil => rwa [List.intercalate_singleton]
      | cons next more =>
          rw [List.intercalate_cons_cons, isControlFree_append, isControlFree_append]
          exact ⟨⟨here, between⟩, induction later⟩

end

theorem isControlFree_numeral {text : List Char} (numeral : IsNumeralText text) :
    IsControlFree text := by
  intro char member
  have kind := numeral char member
  simp only [isNumeralChar, Bool.or_eq_true, beq_iff_eq, Char.isDigit_iff_toNat] at kind
  obtain (((⟨low, _⟩ | rfl) | rfl) | rfl) | rfl := kind
  · exact Nat.le_trans (by decide) low
  all_goals decide

namespace Json

theorem escape_of_beyond {char : Char} (beyond : 0x80 ≤ char.toNat) :
    Quoted.escape char = [char] := by
  unfold Quoted.escape
  split
  all_goals first
    | exact absurd beyond (by decide)
    | exact if_neg (by omega)

theorem isControlFree_escape (char : Char) : IsControlFree (Quoted.escape char) := by
  by_cases ascii : char.toNat < 128
  · exact Text.forall_ascii (fun char => IsControlFree (Quoted.escape char))
      (by decide +kernel) ascii
  · rw [escape_of_beyond (by omega)]
    exact isControlFree_cons.mpr ⟨by omega, isControlFree_nil⟩

theorem isControlFree_encode (text : List Char) : IsControlFree (Quoted.encode text) := by
  have escapes : IsControlFree (text.flatMap Quoted.escape) := by
    intro char member
    obtain ⟨held, _, inside⟩ := List.mem_flatMap.mp member
    exact isControlFree_escape held char inside
  rw [Quoted.encode, isControlFree_append, isControlFree_cons]
  exact ⟨⟨by decide, escapes⟩, by decide⟩

/-- A value written on one line. -/
theorem isControlFree_compact (value : Json) : IsControlFree value.compact := by
  induction value using inductionOn with
  | null => decide
  | bool value => cases value <;> decide
  | number value => exact isControlFree_numeral (isNumeralText_number value)
  | string value => exact isControlFree_encode value.toList
  | array items induction =>
      rw [compact_array, isControlFree_append, isControlFree_cons]
      refine ⟨⟨by decide, ?_⟩, by decide⟩
      exact isControlFree_intercalate (by decide) (List.forall_mem_map.mpr induction)
  | object members induction =>
      rw [compact_object, isControlFree_append, isControlFree_cons]
      refine ⟨⟨by decide, ?_⟩, by decide⟩
      refine isControlFree_intercalate (by decide)
        (List.forall_mem_map.mpr fun member among => ?_)
      rw [isControlFree_append, isControlFree_cons]
      exact ⟨isControlFree_encode member.1.toList, by decide, induction member among⟩

end Json

end Schemata
