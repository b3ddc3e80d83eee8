import Schemata.Number.Digits
import Schemata.Number.Notation

namespace Schemata.Json

/-! Numerals of JSON texts and the numbers they stand for. -/

/-- A numeral as it is written. Whole numerals have neither fraction nor
exponent. -/
structure Numeral extends Schemata.Numeral where
  whole : Bool

/-- Reads the numeral at the start of a text. Leading zeros are not allowed, and a
point needs digits on both sides. -/
def Numeral.read (text : List Char) : Option (Numeral × List Char) := do
  let (negative, text) :=
    match text with
    | '-' :: rest => (true, rest)
    | text => (false, text)
  let (integer, rest) := text.span Char.isDigit
  guard (integer = ['0'] ∨ integer.head?.any (· ≠ '0'))
  let (fraction, afterFraction) ←
    match rest with
    | '.' :: rest =>
        let (fraction, rest) := rest.span Char.isDigit
        if fraction = [] then none else some (fraction, rest)
    | rest => some ([], rest)
  let (exponent, afterExponent) ← readExponent afterFraction
  let numeral : Numeral :=
    { negative
      integer := decimalDigits integer
      fraction := decimalDigits fraction
      exponent
      whole := afterExponent.length = rest.length }
  return (numeral, afterExponent)

/-- Takes digits into a significand for as long as it stays below `2 ^ 64`, and
returns the digits that are left. -/
def absorb (significand : Nat) : List Nat → Nat × List Nat
  | [] => (significand, [])
  | digit :: rest =>
      let next := 10 * significand + digit
      if next < Nat.pow 2 64 then absorb next rest else (significand, digit :: rest)

/-- Scales by a power of ten in one rounding, or in several when the power is
below the smallest one that a binary number holds. -/
def scale (value : Binary64) (exponent : Int) : Option Binary64 :=
  if exponent < -308 then
    if value.significand = 0 then some value
    else do
      let divisor ← (Decimal.mk 1 308).toBinary64 false
      scale (← value.dividedBy divisor) (exponent + 308)
  else if 308 < exponent then
    if value.significand = 0 then some value else none
  else do
    let power ← (Decimal.mk 1 exponent.natAbs).toBinary64 false
    if 0 ≤ exponent then value.times power else value.dividedBy power
termination_by (-exponent).toNat
decreasing_by omega

/-- The floating-point number of a numeral. Its significand holds the digits that
fit in 64 bits, rounded once, and is then scaled; further integer digits count as
zeros and further fraction digits not at all. -/
def Numeral.toFloat (numeral : Numeral) : Option Binary64 := do
  let (significand, skipped) := absorb 0 numeral.integer
  let (significand, dropped) := absorb significand numeral.fraction
  let kept := numeral.fraction.length - dropped.length
  let magnitude ←
    scale (← Binary64.ofNat significand) (numeral.exponent + skipped.length - kept)
  return magnitude.withSign numeral.negative

/-- Whole numerals are integers as far as 64 bits reach, negative zero excepted. A
numeral beyond the greatest floating-point number has no value. -/
def Numeral.toNumber (numeral : Numeral) : Option Number :=
  let value := valueOfDigits numeral.integer
  if numeral.whole ∧ ¬numeral.negative ∧ value < Nat.pow 2 64 then
    some (.integer value)
  else if numeral.whole ∧ numeral.negative ∧ value ≠ 0 ∧ value ≤ Nat.pow 2 63 then
    some (.integer (-value))
  else numeral.toFloat.map .float

end Schemata.Json
