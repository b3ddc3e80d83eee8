import Schemata.Number.Digits
import Schemata.Yaml.Cursor

namespace Schemata.Yaml

/-! Scalars in single and in double quotes. -/

inductive Quotation where
  | single
  | double
  deriving DecidableEq

def Quotation.mark : Quotation → Char
  | single => '\''
  | double => '"'

/-- Characters of one line: the text they stand for and their number. -/
structure Stretch where
  text : List Char
  width : Nat

private def Stretch.prepend (char : Char) (width : Nat) (stretch : Stretch) :
    Stretch :=
  ⟨char :: stretch.text, width + stretch.width⟩

/-- The characters that a letter stands for behind a backslash. -/
def escaped? : Char → Option Char
  | '0' => some '\x00'
  | 'a' => some '\x07'
  | 'b' => some '\x08'
  | 't' | '\t' => some '\t'
  | 'n' => some '\n'
  | 'v' => some '\x0b'
  | 'f' => some '\x0c'
  | 'r' => some '\r'
  | 'e' => some '\x1b'
  | ' ' => some ' '
  | '"' => some '"'
  | '/' => some '/'
  | '\\' => some '\\'
  | 'N' => some '\u0085'
  | '_' => some '\u00a0'
  | 'L' => some '\u2028'
  | 'P' => some '\u2029'
  | _ => none

/-- The number of digits after the letters that introduce a code point. -/
def codeDigits? : Char → Option Nat
  | 'x' => some 2
  | 'u' => some 4
  | 'U' => some 8
  | _ => none

private def codePoint? (count : Nat) (digits : List Char) : Option Char := do
  let code ← readNatural 16 (digits.take count)
  if digits.length < count ∨ (0xD800 ≤ code ∧ code ≤ 0xDFFF) ∨ 0x10FFFF < code then
    none
  else return Char.ofNat code

/-- A quote in single quotes is written twice. -/
private def singleStretch : List Char → Stretch
  | '\'' :: '\'' :: rest => (singleStretch rest).prepend '\'' 2
  | char :: rest =>
      if char == '\'' || isWhite char || isBreak char then ⟨[], 0⟩
      else (singleStretch rest).prepend char 1
  | [] => ⟨[], 0⟩

/-- Stops before a backslash at the end of a line. -/
private def doubleStretch : (bound : Nat) → List Char → Option Stretch
  | 0, _ => none
  | _, [] => some ⟨[], 0⟩
  | _, ['\\'] => none
  | bound + 1, '\\' :: char :: rest =>
      if isBreak char then some ⟨[], 0⟩
      else
        match escaped? char with
        | some value => do return (← doubleStretch bound rest).prepend value 2
        | none => do
            let count ← codeDigits? char
            let value ← codePoint? count rest
            let more ← doubleStretch bound (rest.drop count)
            return more.prepend value (count + 2)
  | bound + 1, char :: rest =>
      if char == '"' || isWhite char || isBreak char then some ⟨[], 0⟩
      else do return (← doubleStretch bound rest).prepend char 1

private def quotedFrom (quotation : Quotation) :
    (bound : Nat) → (pieces : List (List Char)) → Cursor →
      Option (List Char × Cursor)
  | 0, _, _ => none
  | bound + 1, pieces, cursor => do
      if cursor.atDocumentMark || cursor.rest.isEmpty then none
      let stretch ←
        match quotation with
        | .single => some (singleStretch cursor.rest)
        | .double => doubleStretch (bound + 1) cursor.rest
      let cursor := cursor.advance stretch.width
      let pieces := stretch.text :: pieces
      if cursor.next? == some quotation.mark then
        return (pieces.reverse.flatten, cursor.advance 1)
      else if cursor.next? == some '\\' then
        let (gap, cursor) := ((cursor.advance 1).nextLine).gap
        quotedFrom quotation bound (gap.breakTexts :: pieces) cursor
      else
        let (gap, cursor) := cursor.gap
        quotedFrom quotation bound (gap.folded :: pieces) cursor

/-- Reads the scalar whose opening quote is at the cursor. A line break behind a
backslash leaves nothing of itself. -/
def quotedScalar (bound : Nat) (quotation : Quotation) (cursor : Cursor) :
    Option (List Char × Cursor) :=
  quotedFrom quotation bound [] (cursor.advance 1)

end Schemata.Yaml
