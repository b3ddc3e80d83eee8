import Schemata.Proofs.Naming.TypeName
import Schemata.Proofs.Text.Split
import Schemata.PureScript.Declaration

namespace Schemata.PureScript

/-! The words of a written type: what stands between blanks and parentheses. Those of an
application are the constructor and the words of its argument, whether or not the argument
is in parentheses. -/

def breaksType (char : Char) : Bool :=
  char == ' ' || char == '(' || char == ')'

def typeWords (text : List Char) : List (List Char) :=
  Text.wordsBetween breaksType text

abbrev IsTypeWord (text : List Char) : Prop :=
  Text.IsWordBetween breaksType text

theorem typeWords_argument (type : List Char) :
    typeWords (argument type) = typeWords type := by
  unfold argument
  split
  · calc typeWords ('(' :: type ++ [')'])
        = typeWords (type ++ [')']) := Text.wordsBetween_cons rfl _
      _ = typeWords type := Text.wordsBetween_concat rfl type
  · rfl

theorem typeWords_applied {constructor : List Char} (word : IsTypeWord constructor)
    (type : List Char) :
    typeWords (applied constructor type) = constructor :: typeWords type :=
  calc typeWords (applied constructor type)
      = typeWords constructor ++ typeWords (argument type) :=
        Text.wordsBetween_separator rfl constructor (argument type)
    _ = [constructor] ++ typeWords type :=
        congrArg₂ (· ++ ·) (Text.wordsBetween_word word) (typeWords_argument type)

theorem typeWords_nullableText (type : List Char) :
    typeWords (nullableText type) = "Nullable".toList :: typeWords type :=
  typeWords_applied (by decide) type

theorem typeWords_maybeText (type : List Char) :
    typeWords (maybeText type) = "Maybe".toList :: typeWords type :=
  typeWords_applied (by decide) type

theorem typeWords_primitiveText (kind : Primitive) :
    typeWords (primitiveText kind) = [primitiveText kind] :=
  Text.wordsBetween_word (by cases kind <;> decide)

/-- The words of a type in their order. -/
def wordsOf : TypeRef → List (List Char)
  | .primitive kind => [primitiveText kind]
  | .named name => typeWords name.toList
  | .array element => "Array".toList :: wordsOf element
  | .map values => "Object".toList :: wordsOf values
  | .untypedMap => ["Object".toList, "Foreign".toList]
  | .nullable inner => "Nullable".toList :: wordsOf inner

theorem typeWords_typeText (type : TypeRef) :
    typeWords (typeText type) = wordsOf type := by
  induction type with
  | primitive kind => exact typeWords_primitiveText kind
  | named name => rfl
  | array element induction =>
      rw [typeText, typeWords_applied (by decide), induction, wordsOf]
  | map values induction =>
      rw [typeText, typeWords_applied (by decide), induction, wordsOf]
  | untypedMap => decide
  | nullable inner induction =>
      rw [typeText, typeWords_nullableText, induction, wordsOf]

theorem not_breaksType {char : Char} (letter : Text.IsWordChar char) :
    breaksType char = false := by
  by_contra breaks
  rw [Bool.not_eq_false] at breaks
  have which : char = ' ' ∨ char = '(' ∨ char = ')' := by
    simpa [breaksType, or_assoc] using breaks
  rcases which with rfl | rfl | rfl <;> exact absurd letter (by decide)

theorem isTypeWord_of_isTypeName {name : String} (named : IsTypeName name) :
    IsTypeWord name.toList :=
  Text.isWordBetween_of_isWordText (fun _ => not_breaksType) named.nonempty named.letters

end Schemata.PureScript
