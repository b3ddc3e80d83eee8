import Schemata.Number.Binary64

namespace Schemata

/-! Decimal numerals and the binary numbers nearest to them. -/

/-- The value `digits * 10 ^ exponent`. -/
structure Decimal where
  digits : Nat
  exponent : Int
  deriving DecidableEq

def digitCount (value : Nat) : Nat :=
  (Nat.toDigits 10 value).length

def valueOfDigits (digits : List Nat) : Nat :=
  digits.foldl (fun value digit => 10 * value + digit) 0

namespace Decimal

def fraction (value : Decimal) : Nat × Nat :=
  scaledFraction 10 value.digits 1 value.exponent

/-- The nearest binary number. Magnitudes of more than 400 places are beyond the
greatest number, and those below the 400th place round to zero. -/
def toBinary64 (negative : Bool) (value : Decimal) : Option Binary64 :=
  let leading := digitCount value.digits + value.exponent
  if value.digits = 0 ∨ leading < -400 then some (Binary64.zero negative)
  else if 400 < leading then none
  else
    let (top, bottom) := value.fraction
    Binary64.ofFraction negative top bottom

/-- Moves trailing zeros from the digits to the exponent. -/
def withoutTrailingZeros (value : Decimal) : Decimal :=
  let digits := Nat.toDigits 10 value.digits
  let zeros := (digits.reverse.takeWhile (· = '0')).length
  ⟨value.digits / Nat.pow 10 zeros, value.exponent + zeros⟩

end Decimal

/-- A decimal numeral as it is written: digits before and after the point, and
the power of ten that follows them. -/
structure Numeral where
  negative : Bool
  integer : List Nat
  fraction : List Nat
  exponent : Int
  deriving DecidableEq

def Numeral.magnitude (numeral : Numeral) : Decimal where
  digits := valueOfDigits (numeral.integer ++ numeral.fraction)
  exponent := numeral.exponent - numeral.fraction.length

def Numeral.toBinary64 (numeral : Numeral) : Option Binary64 :=
  numeral.magnitude.toBinary64 numeral.negative

end Schemata
