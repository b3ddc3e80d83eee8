import Schemata.Number.Decimal

namespace Schemata

/-! The shortest decimal that rounds to a binary number and, of several, the
nearest one. -/

namespace Binary64

/-- The fractions that round to a positive number form an interval, whose ends
belong to it when the significand is even. All three are over one denominator. -/
structure RoundingInterval where
  low : Nat
  value : Nat
  high : Nat
  denominator : Nat
  closed : Bool

/-- Below a power of two the neighbours are half as far apart. -/
def roundingInterval (value : Binary64) : RoundingInterval :=
  let lowGap :=
    if value.significand = Nat.pow 2 52 ∧ value.exponent ≠ -1074 then 1 else 2
  let unit := scaledFraction 2 1 4 value.exponent
  { low := (4 * value.significand - lowGap) * unit.1
    value := 4 * value.significand * unit.1
    high := (4 * value.significand + 2) * unit.1
    denominator := unit.2
    closed := value.significand % 2 = 0 }

def RoundingInterval.Holds (interval : RoundingInterval) (point : Decimal) :
    Prop :=
  let (top, bottom) := point.fraction
  let point := top * interval.denominator
  let low := interval.low * bottom
  let high := interval.high * bottom
  (low < point ∧ point < high) ∨ (interval.closed ∧ (low = point ∨ point = high))

instance (interval : RoundingInterval) (point : Decimal) :
    Decidable (interval.Holds point) :=
  inferInstanceAs (Decidable (_ ∨ _ ∧ (_ ∨ _)))

/-- Distance to the value of the interval, as a numerator over the product of the
two denominators. -/
def RoundingInterval.distance (interval : RoundingInterval) (point : Decimal) :
    Nat :=
  let (top, bottom) := point.fraction
  let point := top * interval.denominator
  let value := interval.value * bottom
  max point value - min point value

/-- The multiple of `10 ^ exponent` that the value is nearest to, if it lies in
the interval. Between two equally near ones the even one is taken. -/
def RoundingInterval.onGrid (interval : RoundingInterval) (exponent : Int) :
    Option Decimal :=
  let (top, bottom) :=
    scaledFraction 10 interval.value interval.denominator (-exponent)
  let below : Decimal := ⟨top / bottom, exponent⟩
  let above : Decimal := ⟨top / bottom + 1, exponent⟩
  let belowHolds := decide (interval.Holds below)
  let aboveHolds := decide (interval.Holds above)
  if belowHolds && aboveHolds then
    let fromBelow := interval.distance below
    let fromAbove := interval.distance above
    if fromBelow < fromAbove then some below
    else if fromAbove < fromBelow then some above
    else some (if below.digits % 2 = 0 then below else above)
  else if belowHolds then some below
  else if aboveHolds then some above
  else none

/-- The power of ten of the leading digit. -/
def RoundingInterval.leadingExponent (interval : RoundingInterval) : Int :=
  digitCount (interval.value * Nat.pow 10 400 / interval.denominator) - 401

/-- Seventeen digits always identify a binary number. -/
def shortest (value : Binary64) : Decimal :=
  if value.significand = 0 then ⟨0, 0⟩
  else
    let interval := value.roundingInterval
    let leading := interval.leadingExponent
    ((List.range 17).findSome? fun (places : Nat) =>
        interval.onGrid (leading - places)).getD ⟨0, 0⟩
      |>.withoutTrailingZeros

end Binary64

end Schemata
