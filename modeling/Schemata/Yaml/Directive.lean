import Schemata.Yaml.Token

namespace Schemata.Yaml

/-! Directives in front of a document. -/

private def versionNumber (text : List Char) : Option (Nat × List Char) :=
  let (digits, rest) := text.span Char.isDigit
  if digits.isEmpty || 9 < digits.length then none
  else
    some (digits.foldl (fun value digit =>
      10 * value + (digit.toNat - '0'.toNat)) 0, rest)

private def versionDirective (text : List Char) : Option (Token × List Char) := do
  let (major, rest) ← versionNumber (text.dropWhile isWhite)
  match rest with
  | '.' :: rest =>
      let (minor, rest) ← versionNumber rest
      return (.versionDirective major minor, rest)
  | _ => none

private def tagDirective (bound : Nat) (text : List Char) :
    Option (Token × List Char) := do
  let (handle, rest) ← tagHandle (text.dropWhile isWhite)
  if handle.getLast? ≠ some '!' ∨ !rest.head?.any isWhite then none
  let (stem, rest) ← tagText true bound (rest.dropWhile isWhite)
  if stem.isEmpty || !isGap rest.head? then none
  else return (.tagDirective handle stem, rest)

def readDirective (bound : Nat) (cursor : Cursor) : Option (Token × Cursor) := do
  let (name, rest) := (cursor.rest.drop 1).span isWord
  if !isGap rest.head? then none
  let (token, rest) ←
    if name = "YAML".toList then versionDirective rest
    else if name = "TAG".toList then tagDirective bound rest
    else none
  let lineEnd := cursor.advanceTo rest
  let lineEnd := lineEnd.dropWhile isWhite
  let lineEnd :=
    if lineEnd.next? == some '#' then lineEnd.dropWhile (!isBreak ·) else lineEnd
  if lineEnd.next?.all isBreak then return (token, lineEnd.nextLine) else none

end Schemata.Yaml
