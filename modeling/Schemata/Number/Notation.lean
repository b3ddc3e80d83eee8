import Schemata.Number.Shortest

namespace Schemata

/-! Spelling of numbers: whole numbers and binary floating-point numbers. -/

/-- A number of a document. A whole number is never equal to a floating-point
number, whatever their values. -/
inductive Number where
  | integer (value : Int)
  | float (value : Binary64)
  deriving DecidableEq

namespace Number

/-- Equality of numbers as values, for which the two floating-point zeros are the
same. -/
def Equals : Number → Number → Prop
  | .integer left, .integer right => left = right
  | .float left, .float right => left.Equals right
  | _, _ => False

instance : (left right : Number) → Decidable (left.Equals right)
  | .integer left, .integer right => inferInstanceAs (Decidable (left = right))
  | .float left, .float right => inferInstanceAs (Decidable (left.Equals right))
  | .integer _, .float _ => inferInstanceAs (Decidable False)
  | .float _, .integer _ => inferInstanceAs (Decidable False)

end Number

def naturalText (value : Nat) : List Char :=
  Nat.toDigits 10 value

def integerText : Int → List Char
  | .ofNat value => naturalText value
  | .negSucc value => '-' :: naturalText (value + 1)

/-- What a style leaves open in the spelling of an exponent. -/
structure ExponentStyle where
  positiveSign : List Char

def pointAt (places : Nat) (digits : List Char) : List Char :=
  digits.take places ++ '.' :: digits.drop places

/-- Positional notation for magnitudes from `10 ^ -5` up to `10 ^ 16`, always with
a digit after the point; scientific notation without a superfluous point for the
others. -/
def Decimal.text (style : ExponentStyle) (value : Decimal) : List Char :=
  let digits := naturalText value.digits
  let leading : Int := digits.length + value.exponent - 1
  if value.digits = 0 then ['0', '.', '0']
  else if 0 ≤ leading ∧ leading < 16 then
    if 0 ≤ value.exponent then
      digits ++ List.replicate value.exponent.toNat '0' ++ ['.', '0']
    else pointAt (leading.toNat + 1) digits
  else if -5 ≤ leading ∧ leading < 0 then
    '0' :: '.' :: List.replicate (-leading - 1).toNat '0' ++ digits
  else
    let mantissa :=
      match digits with
      | first :: second :: rest => first :: '.' :: second :: rest
      | short => short
    let sign := if 0 ≤ leading then style.positiveSign else []
    mantissa ++ 'e' :: sign ++ integerText leading

def Binary64.text (style : ExponentStyle) (value : Binary64) : List Char :=
  let magnitude := value.shortest.text style
  if value.negative then '-' :: magnitude else magnitude

/-- Numbers are written with a sign in every exponent. -/
def Number.text : Number → List Char
  | .integer value => integerText value
  | .float value => value.text ⟨['+']⟩

end Schemata
