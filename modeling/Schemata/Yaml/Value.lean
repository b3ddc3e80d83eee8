import Schemata.Json.Basic

namespace Schemata.Yaml

/-! Values of the YAML data model. The entries of a mapping keep their order, and
any value may be a key. -/

/-- A number as far as floating-point arithmetic reaches. -/
inductive ExtendedNumber where
  | finite (value : Number)
  | infinite (negative : Bool)
  | undefined
  deriving DecidableEq

inductive Value where
  | null
  | bool (value : Bool)
  | number (value : ExtendedNumber)
  | string (value : String)
  | sequence (items : List Value)
  | mapping (entries : List (Value × Value))
  | tagged (tag : String) (value : Value)
  deriving Inhabited

/-- The two floating-point zeros are the same, and the undefined number is the same
as itself. -/
def ExtendedNumber.sameAs : ExtendedNumber → ExtendedNumber → Bool
  | .finite left, .finite right => decide (left.Equals right)
  | left, right => left == right

/-- Whole numbers are written with digits, and finite floating-point numbers with
no sign in a positive exponent. -/
def ExtendedNumber.text : ExtendedNumber → List Char
  | .finite (.integer value) => integerText value
  | .finite (.float value) => value.text ⟨[]⟩
  | .infinite true => "-.inf".toList
  | .infinite false => ".inf".toList
  | .undefined => ".nan".toList

namespace Value

mutual
/-- Equality of values, for which the order of a mapping's entries does not
count. -/
def sameAs : Value → Value → Bool
  | .null, .null => true
  | .bool left, .bool right => left == right
  | .number left, .number right => left.sameAs right
  | .string left, .string right => left == right
  | .sequence left, .sequence right => sameItems left right
  | .mapping left, .mapping right =>
      left.length == right.length && entriesWithin left right
  | .tagged leftTag left, .tagged rightTag right =>
      leftTag == rightTag && left.sameAs right
  | _, _ => false

private def sameItems : List Value → List Value → Bool
  | [], [] => true
  | left :: leftRest, right :: rightRest =>
      left.sameAs right && sameItems leftRest rightRest
  | _, _ => false

private def entriesWithin :
    List (Value × Value) → List (Value × Value) → Bool
  | [], _ => true
  | (key, value) :: rest, entries =>
      (entries.any fun entry => key.sameAs entry.1 && value.sameAs entry.2) &&
        entriesWithin rest entries
end

mutual
/-- The count of values on the longest way into a value. -/
def height : Value → Nat
  | .sequence items => itemsHeight items + 1
  | .mapping entries => entriesHeight entries + 1
  | .tagged _ value => value.height + 1
  | _ => 1

private def itemsHeight : List Value → Nat
  | [] => 0
  | item :: rest => max item.height (itemsHeight rest)

private def entriesHeight : List (Value × Value) → Nat
  | [] => 0
  | (_, value) :: rest => max value.height (entriesHeight rest)
end

def hasKey (key : Value) (entries : List (Value × Value)) : Bool :=
  entries.any fun entry => key.sameAs entry.1

/-- The text that stands for a key. Collections and tagged values have none. -/
def keyText? : Value → Option String
  | .null => some "null"
  | .bool true => some "true"
  | .bool false => some "false"
  | .number value => some (String.ofList value.text)
  | .string value => some value
  | _ => none

mutual
/-- The value with the same structure as a JSON value. -/
def ofJson : Json → Value
  | .null => .null
  | .bool value => .bool value
  | .number value => .number (.finite value)
  | .string value => .string value
  | .array items => .sequence (itemsOfJson items)
  | .object members => .mapping (entriesOfJson members)

private def itemsOfJson : List Json → List Value
  | [] => []
  | item :: rest => ofJson item :: itemsOfJson rest

private def entriesOfJson : List (String × Json) → List (Value × Value)
  | [] => []
  | (key, value) :: rest => (.string key, ofJson value) :: entriesOfJson rest
end

theorem ofJson_array (items : List Json) :
    ofJson (.array items) = .sequence (items.map ofJson) := by
  rw [ofJson]
  congr 1
  induction items with
  | nil => rfl
  | cons item rest induction => rw [itemsOfJson, induction, List.map_cons]

theorem ofJson_object (members : List (String × Json)) :
    ofJson (.object members) =
      .mapping (members.map fun member => (.string member.1, ofJson member.2)) := by
  rw [ofJson]
  congr 1
  induction members with
  | nil => rfl
  | cons member rest induction => rw [entriesOfJson, induction, List.map_cons]

theorem sameAs_string (left right : String) :
    sameAs (.string left) (.string right) = (left == right) := by
  rw [sameAs]

end Value

end Schemata.Yaml
