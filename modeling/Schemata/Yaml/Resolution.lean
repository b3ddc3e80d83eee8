import Schemata.Number.Digits
import Schemata.Yaml.Value

namespace Schemata.Yaml

/-! The value that the text of a scalar stands for. -/

private def nullTexts : List String := ["null", "Null", "NULL", "~"]

private def trueTexts : List String := ["true", "True", "TRUE"]

private def falseTexts : List String := ["false", "False", "FALSE"]

private def infinityTexts : List String := [".inf", ".Inf", ".INF"]

private def undefinedTexts : List String := [".nan", ".NaN", ".NAN"]

def readNull (text : String) : Option Unit :=
  if nullTexts.contains text then some () else none

def readBool (text : String) : Option Bool :=
  if trueTexts.contains text then some true
  else if falseTexts.contains text then some false
  else none

/-- A sign before a number, and what follows it. -/
inductive Sign where
  | absent
  | plus
  | minus
  deriving DecidableEq

private def splitSign : List Char → Sign × List Char
  | '+' :: rest => (.plus, rest)
  | '-' :: rest => (.minus, rest)
  | text => (.absent, text)

/-- Digits with a superfluous zero before them are not a number. -/
private def hasLeadingZero : List Char → Bool
  | '0' :: rest => !rest.isEmpty && rest.all Char.isDigit
  | _ => false

/-- Whether a text is digits with a superfluous zero before them, perhaps behind a
sign. -/
def isZeroPadded (text : List Char) : Bool := hasLeadingZero (splitSign text).2

private def readUnsigned : List Char → Option Nat
  | '0' :: 'x' :: rest => readNatural 16 rest
  | '0' :: 'o' :: rest => readNatural 8 rest
  | '0' :: 'b' :: rest => readNatural 2 rest
  | text => if hasLeadingZero text then none else readNatural 10 text

def readInteger (text : List Char) : Option Int := do
  let (sign, magnitude) := splitSign text
  let value ← readUnsigned magnitude
  return if sign = .minus then -value else value

/-- A numeral may lack the digits on one side of its point. -/
def readNumeral (negative : Bool) (text : List Char) : Option Numeral := do
  let (integer, rest) := text.span Char.isDigit
  let (fraction, rest) :=
    match rest with
    | '.' :: rest => rest.span Char.isDigit
    | rest => ([], rest)
  guard (!integer.isEmpty || !fraction.isEmpty)
  let (exponent, rest) ← readExponent rest
  guard rest.isEmpty
  return ⟨negative, decimalDigits integer, decimalDigits fraction, exponent⟩

/-- A numeral beyond the greatest floating-point number is not a number. -/
def readFloat (text : List Char) : Option ExtendedNumber :=
  let (sign, magnitude) := splitSign text
  if infinityTexts.contains (String.ofList magnitude) then
    some (.infinite (sign = .minus))
  else if undefinedTexts.contains (String.ofList text) then some .undefined
  else do
    let numeral ← readNumeral (sign = .minus) magnitude
    return .finite (.float (← numeral.toBinary64))

/-- Whether an integer has a place among the signed or the unsigned integers of a
width. -/
private def fits (bits : Nat) (value : Int) : Bool :=
  -(Nat.pow 2 (bits - 1) : Int) ≤ value && value < (Nat.pow 2 bits : Int)

private def floatOrString (text : String) : Value :=
  if isZeroPadded text.toList then .string text
  else
    match readFloat text.toList with
    | some value => .number value
    | none => .string text

private def integerValue (value : Int) : Value :=
  .number (.finite (.integer value))

/-- The value of a plain scalar. Integers have 64 bits. One that needs up to 128
bits has no value, and one that needs more is read as a floating-point number. -/
def plainValue? (text : String) : Option Value :=
  if text.isEmpty || (readNull text).isSome then some .null
  else
    match readBool text with
    | some value => some (.bool value)
    | none =>
        match readInteger text.toList with
        | some value =>
            if fits 64 value then some (integerValue value)
            else if fits 128 value then none
            else some (floatOrString text)
        | none => some (floatOrString text)

private def untaggedValue? (plain : Bool) (text : String) : Option Value :=
  if plain then plainValue? text else some (.string text)

/-- The name of a tag that a document defines itself. -/
def localTagName? (tag : String) : Option String :=
  match tag.toList with
  | ['!'] => some "!"
  | '!' :: name => some (String.ofList name)
  | _ => none

/-- A name that starts with another exclamation mark is the same without it. -/
def Value.withTag (name : String) (value : Value) : Value :=
  .tagged ((localTagName? name).getD name) value

/-- The value of a scalar. A tag of the core types demands a text of its type, a
local tag is kept, and any other tag makes a string. -/
def scalarValue? (tag : Option String) (plain : Bool) (text : String) :
    Option Value :=
  match tag with
  | none => untaggedValue? plain text
  | some "tag:yaml.org,2002:null" => (readNull text).map fun _ => .null
  | some "tag:yaml.org,2002:bool" => (readBool text).map .bool
  | some "tag:yaml.org,2002:int" =>
      ((readInteger text.toList).filter (fits 64)).map integerValue
  | some "tag:yaml.org,2002:float" => (readFloat text.toList).map .number
  | some tag =>
      match localTagName? tag with
      | some name => (untaggedValue? plain text).map (·.withTag name)
      | none => some (.string text)

end Schemata.Yaml
