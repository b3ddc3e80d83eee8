import Schemata.Number.Decimal

namespace Schemata

/-! Reading of digits and exponents. -/

/-- Letters stand for the digits from ten. -/
def digitValue? (radix : Nat) (char : Char) : Option Nat :=
  let value :=
    if '0' ≤ char ∧ char ≤ '9' then char.toNat - '0'.toNat
    else if 'a' ≤ char ∧ char ≤ 'z' then char.toNat - 'a'.toNat + 10
    else if 'A' ≤ char ∧ char ≤ 'Z' then char.toNat - 'A'.toNat + 10
    else radix
  if value < radix then some value else none

/-- The number that a text of at least one digit denotes. -/
def readNatural (radix : Nat) (text : List Char) : Option Nat :=
  if text.isEmpty then none
  else do
    let digits ← text.mapM (digitValue? radix)
    return digits.foldl (fun value digit => radix * value + digit) 0

def decimalDigits (text : List Char) : List Nat :=
  text.filterMap (digitValue? 10)

/-- Reads the exponent at the start of a text, which is zero where none is
written. A mark needs digits after it. -/
def readExponent : List Char → Option (Int × List Char)
  | mark :: rest =>
      if mark = 'e' ∨ mark = 'E' then
        let (negative, rest) :=
          match rest with
          | '+' :: rest => (false, rest)
          | '-' :: rest => (true, rest)
          | rest => (false, rest)
        match rest.span Char.isDigit with
        | ([], _) => none
        | (digits, rest) =>
            let value : Int := valueOfDigits (decimalDigits digits)
            some (if negative then -value else value, rest)
      else some (0, mark :: rest)
  | [] => some (0, [])

end Schemata
