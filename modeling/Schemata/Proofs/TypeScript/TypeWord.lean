import Schemata.Proofs.Naming.TypeName
import Schemata.Proofs.Text.Split
import Schemata.TypeScript.Declaration

namespace Schemata.TypeScript

/-! The words of a written type: what stands between blanks, brackets, bars and commas. A
text that begins like a value is a literal and holds no words. -/

def breaksType (char : Char) : Bool :=
  " |()[]<>,".toList.contains char

def beginsValue (char : Char) : Bool :=
  char == '"' || char == '-' || char.isDigit

def typeWords : List Char → List (List Char)
  | [] => []
  | first :: rest => if beginsValue first then [] else Text.wordsBetween breaksType (first :: rest)

theorem words_orNull (text : List Char) :
    Text.wordsBetween breaksType (orNull text) =
      Text.wordsBetween breaksType text ++ ["null".toList] :=
  Text.wordsBetween_separator rfl text "| null".toList

theorem words_arrayText (element : List Char) :
    Text.wordsBetween breaksType (arrayText element) =
      Text.wordsBetween breaksType element := by
  unfold arrayText
  split
  · calc Text.wordsBetween breaksType ('(' :: element ++ ")[]".toList)
        = Text.wordsBetween breaksType (element ++ ")[]".toList) :=
          Text.wordsBetween_cons rfl _
      _ = Text.wordsBetween breaksType element ++ [] :=
          Text.wordsBetween_separator rfl element "[]".toList
      _ = Text.wordsBetween breaksType element := List.append_nil _
  · exact (Text.wordsBetween_separator rfl element "]".toList).trans (List.append_nil _)

theorem words_recordText (values : List Char) :
    Text.wordsBetween breaksType (recordText values) =
      "Record".toList :: "string".toList :: Text.wordsBetween breaksType values := by
  have opening : Text.wordsBetween breaksType "Record<string,".toList =
      ["Record".toList, "string".toList] := by
    decide
  calc Text.wordsBetween breaksType (recordText values)
      = Text.wordsBetween breaksType "Record<string,".toList ++
          Text.wordsBetween breaksType (values ++ ['>']) :=
        Text.wordsBetween_separator rfl "Record<string,".toList (values ++ ['>'])
    _ = "Record".toList :: "string".toList :: Text.wordsBetween breaksType values := by
        rw [opening, Text.wordsBetween_concat rfl]
        rfl

theorem not_breaksType {char : Char} (letter : Text.IsWordChar char) :
    breaksType char = false := by
  rw [Bool.eq_false_iff]
  intro breaks
  have apart : " |()[]<>,".toList.all (decide <| ¬ Text.IsWordChar ·) = true := by decide
  have among : char ∈ " |()[]<>,".toList := by simpa [breaksType] using breaks
  exact of_decide_eq_true (List.all_eq_true.mp apart char among) letter

/-! How types and literals begin. -/

def BeginsType (text : List Char) : Prop :=
  ∃ first rest, text = first :: rest ∧ beginsValue first = false

def BeginsValue (text : List Char) : Prop :=
  ∃ first rest, text = first :: rest ∧ beginsValue first = true

section

variable {text : List Char}

theorem typeWords_of_type (begins : BeginsType text) : typeWords text = Text.wordsBetween breaksType text := by
  obtain ⟨first, rest, rfl, plain⟩ := begins
  rw [typeWords, plain]
  rfl

theorem typeWords_of_value (begins : BeginsValue text) : typeWords text = [] := by
  obtain ⟨first, rest, rfl, value⟩ := begins
  rw [typeWords, value]
  rfl

theorem BeginsType.append (begins : BeginsType text) (more : List Char) :
    BeginsType (text ++ more) := by
  obtain ⟨first, rest, rfl, plain⟩ := begins
  exact ⟨first, rest ++ more, rfl, plain⟩

theorem beginsType_arrayText (begins : BeginsType text) : BeginsType (arrayText text) := by
  unfold arrayText
  split
  · exact ⟨'(', _, rfl, by decide⟩
  · exact begins.append _

theorem beginsType_of_isTypeName {name : String} (named : IsTypeName name) :
    BeginsType name.toList := by
  obtain ⟨first, rest, split⟩ := List.exists_cons_of_ne_nil named.nonempty
  refine ⟨first, rest, split, ?_⟩
  have digit := named.not_digit first (by rw [split]; rfl)
  have letter := named.letters first (split ▸ List.mem_cons_self)
  have quote : first ≠ '"' := by
    rintro rfl
    exact absurd letter (by decide)
  have minus : first ≠ '-' := by
    rintro rfl
    exact absurd letter (by decide)
  simp [beginsValue, quote, minus, digit]

theorem beginsType_typeText {type : TypeRef} (named : ∀ name ∈ type.names, IsTypeName name) :
    BeginsType (typeText type) := by
  induction type with
  | primitive kind => cases kind <;> exact ⟨_, _, rfl, by decide⟩
  | named name => exact beginsType_of_isTypeName (named name List.mem_cons_self)
  | array element induction => exact beginsType_arrayText (induction named)
  | map values => exact ⟨'R', _, rfl, by decide⟩
  | untypedMap => exact ⟨'R', _, rfl, by decide⟩
  | nullable inner induction => exact (induction named).append _

end

theorem exists_digit_naturalText (value : Nat) :
    ∃ first rest, naturalText value = first :: rest ∧ first.isDigit = true := by
  obtain ⟨first, rest, split⟩ :=
    List.exists_cons_of_ne_nil (Nat.toDigits_ne_nil : naturalText value ≠ [])
  have member : first ∈ Nat.toDigits 10 value := split ▸ List.mem_cons_self
  exact ⟨first, rest, split, Nat.isDigit_of_mem_toDigits (by decide) (by decide) member⟩

theorem beginsValue_of_digit {first : Char} (digit : first.isDigit = true)
    (rest : List Char) : BeginsValue (first :: rest) :=
  ⟨first, rest, rfl, by rw [beginsValue, digit, Bool.or_true]⟩

theorem beginsValue_decimal (style : ExponentStyle) (value : Decimal) :
    BeginsValue (value.text style) := by
  obtain ⟨first, rest, split, digit⟩ := exists_digit_naturalText value.digits
  have digits := beginsValue_of_digit digit
  have zero : ∀ rest, BeginsValue ('0' :: rest) := beginsValue_of_digit (by decide)
  unfold Decimal.text
  dsimp only
  rw [split]
  split_ifs
  · exact zero _
  · exact digits _
  · exact digits _
  · exact zero _
  · cases rest <;> exact digits _
  · cases rest <;> exact digits _

theorem beginsValue_number (value : Number) : BeginsValue value.text := by
  cases value with
  | integer value =>
      cases value with
      | ofNat value =>
          obtain ⟨first, rest, split, digit⟩ := exists_digit_naturalText value
          rw [Number.text, integerText, split]
          exact beginsValue_of_digit digit rest
      | negSucc value => exact ⟨'-', _, rfl, by decide⟩
  | float value =>
      simp only [Number.text, Binary64.text]
      split
      · exact ⟨'-', _, rfl, by decide⟩
      · exact beginsValue_decimal _ _

theorem beginsValue_string (value : String) :
    BeginsValue (Literal.string value).text.toList := by
  rw [Literal.text, Json.quote, String.toList_ofList]
  exact ⟨'"', _, rfl, by decide⟩

end Schemata.TypeScript
