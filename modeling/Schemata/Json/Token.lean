import Schemata.Json.Numeral
import Schemata.Json.Quoted

namespace Schemata.Json

/-! The tokens of a JSON text. -/

inductive Token where
  | openArray
  | closeArray
  | openObject
  | closeObject
  | comma
  | colon
  | null
  | bool (value : Bool)
  | number (value : Number)
  | string (value : String)

namespace Token

private def punctuation? : Char → Option Token
  | '[' => some .openArray
  | ']' => some .closeArray
  | '\x7b' => some .openObject
  | '\x7d' => some .closeObject
  | ',' => some .comma
  | ':' => some .colon
  | _ => none

def isSpace (char : Char) : Bool :=
  char == ' ' || char == '\t' || char == '\n' || char == '\r'

def read : List Char → Option (Token × List Char)
  | 'n' :: 'u' :: 'l' :: 'l' :: rest => some (.null, rest)
  | 't' :: 'r' :: 'u' :: 'e' :: rest => some (.bool true, rest)
  | 'f' :: 'a' :: 'l' :: 's' :: 'e' :: rest => some (.bool false, rest)
  | '"' :: rest =>
      (Quoted.read rest).map fun (text, rest) => (.string (String.ofList text), rest)
  | text =>
      match text.head?.bind punctuation? with
      | some token => some (token, text.tail)
      | none => do
          let (numeral, rest) ← Numeral.read text
          return (.number (← numeral.toNumber), rest)

private def scanWithin : Nat → List Char → Option (List Token)
  | 0, _ => none
  | bound + 1, text =>
      match text.dropWhile isSpace with
      | [] => some []
      | text => do
          let (token, rest) ← read text
          return token :: (← scanWithin bound rest)

/-- Every token takes at least one character, so the length of the text bounds
their number. -/
def scan (text : List Char) : Option (List Token) :=
  scanWithin (text.length + 1) text

end Token

end Schemata.Json
