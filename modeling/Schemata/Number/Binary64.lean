namespace Schemata

/-! Finite binary floating-point numbers with 53 significant bits, computed
exactly. Every operation rounds the exact result to the nearest number and a tie
to the even significand, and has no result beyond the greatest number. -/

/-- Significand and exponent of the one representation that each number has. -/
def Canonical64 (significand : Nat) (exponent : Int) : Prop :=
  significand < Nat.pow 2 53 ∧ -1074 ≤ exponent ∧ exponent ≤ 971 ∧
    (Nat.pow 2 52 ≤ significand ∨ exponent = -1074)

instance (significand : Nat) (exponent : Int) :
    Decidable (Canonical64 significand exponent) :=
  inferInstanceAs (Decidable (_ ∧ _ ∧ _ ∧ _))

/-- The number `± significand * 2 ^ exponent`. The two zeros are different. -/
structure Binary64 where
  negative : Bool
  significand : Nat
  exponent : Int
  canonical : Canonical64 significand exponent
  deriving DecidableEq

/-- `numerator / denominator * base ^ exponent` as one fraction. -/
def scaledFraction (base numerator denominator : Nat) (exponent : Int) :
    Nat × Nat :=
  (numerator * Nat.pow base exponent.toNat,
    denominator * Nat.pow base (-exponent).toNat)

def roundHalfEven (numerator denominator : Nat) : Nat :=
  let quotient := numerator / denominator
  let twice := 2 * (numerator % denominator)
  if twice < denominator then quotient
  else if denominator < twice then quotient + 1
  else quotient + quotient % 2

namespace Binary64

def zero (negative : Bool) : Binary64 where
  negative := negative
  significand := 0
  exponent := -1074
  canonical := by decide

/-- The exponent that leaves a quotient with 53 bits, or the least exponent. -/
private def roundingExponent (numerator denominator : Nat) : Int :=
  let estimate : Int := numerator.log2 - denominator.log2 - 53
  let (top, bottom) := scaledFraction 2 numerator denominator (-estimate)
  let exponent := if top / bottom < Nat.pow 2 53 then estimate else estimate + 1
  max exponent (-1074)

/-- The nearest number to `± numerator / denominator`. -/
def ofFraction (negative : Bool) (numerator denominator : Nat) :
    Option Binary64 :=
  if numerator = 0 then some (zero negative)
  else
    let exponent := roundingExponent numerator denominator
    let (top, bottom) := scaledFraction 2 numerator denominator (-exponent)
    let rounded := roundHalfEven top bottom
    let (significand, exponent) :=
      if rounded = Nat.pow 2 53 then (Nat.pow 2 52, exponent + 1) else (rounded, exponent)
    if canonical : Canonical64 significand exponent then
      some { negative, significand, exponent, canonical }
    else none

def ofNat (value : Nat) : Option Binary64 :=
  ofFraction false value 1

def times (left right : Binary64) : Option Binary64 :=
  let (top, bottom) :=
    scaledFraction 2 (left.significand * right.significand) 1
      (left.exponent + right.exponent)
  ofFraction (left.negative ^^ right.negative) top bottom

/-- Has no result for a zero divisor. -/
def dividedBy (left right : Binary64) : Option Binary64 :=
  if right.significand = 0 then none
  else
    let (top, bottom) :=
      scaledFraction 2 left.significand right.significand
        (left.exponent - right.exponent)
    ofFraction (left.negative ^^ right.negative) top bottom

def withSign (negative : Bool) (value : Binary64) : Binary64 :=
  { value with negative }

/-- Equality of values, for which the two zeros are the same. -/
def Equals (left right : Binary64) : Prop :=
  left = right ∨ left.significand = 0 ∧ right.significand = 0

instance (left right : Binary64) : Decidable (left.Equals right) :=
  inferInstanceAs (Decidable (_ ∨ _ ∧ _))

end Binary64

end Schemata
