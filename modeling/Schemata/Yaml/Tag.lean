import Schemata.Number.Digits
import Schemata.Yaml.Cursor

namespace Schemata.Yaml

/-! Tags of nodes as they are written: a handle and a suffix. -/

/-- A tag without a handle is written in full. -/
structure TagToken where
  handle : List Char
  suffix : List Char
  deriving DecidableEq

/-- Characters of a tag. Those of `wide` are allowed only where no collection can
end. -/
def isTagCharacter (wide : Bool) (char : Char) : Bool :=
  isWord char || char ∈ ";/?:@&=+$.%!~*'()".toList ||
    (wide && char ∈ ",[]".toList)

private def octetCount? (octet : Nat) : Option Nat :=
  if octet < 0x80 then some 1
  else if octet < 0xC0 then none
  else if octet < 0xE0 then some 2
  else if octet < 0xF0 then some 3
  else if octet < 0xF8 then some 4
  else none

private def octets? : (count : Nat) → List Char → Option (List Nat × List Char)
  | 0, text => some ([], text)
  | count + 1, '%' :: high :: low :: rest => do
      let octet ← readNatural 16 [high, low]
      let (octets, rest) ← octets? count rest
      return (octet :: octets, rest)
  | _ + 1, _ => none

/-- Reads the percent escapes of one character. -/
private def percentEscape? (text : List Char) : Option (Char × List Char) := do
  let (first, _) ← octets? 1 text
  let count ← octetCount? (first.headD 0)
  let (octets, rest) ← octets? count text
  let lead := octets.headD 0
  if octets.tail.any fun octet => octet / 64 ≠ 2 then none
  else
    let leadBits := if count = 1 then lead else lead % Nat.pow 2 (7 - count)
    let code := octets.tail.foldl (fun code octet => 64 * code + octet % 64) leadBits
    return (Char.ofNat code, rest)

/-- The longest stretch of tag characters. -/
def tagText (wide : Bool) : (bound : Nat) → List Char →
    Option (List Char × List Char)
  | 0, _ => none
  | bound + 1, text =>
      match text with
      | [] => some ([], [])
      | char :: rest =>
          if !isTagCharacter wide char then some ([], char :: rest)
          else if char = '%' then do
            let (value, rest) ← percentEscape? text
            let (more, rest) ← tagText wide bound rest
            return (value :: more, rest)
          else do
            let (more, rest) ← tagText wide bound rest
            return (char :: more, rest)

/-- An exclamation mark, a word and perhaps another exclamation mark. -/
def tagHandle : List Char → Option (List Char × List Char)
  | '!' :: rest =>
      match rest.span isWord with
      | (word, '!' :: rest) => some ('!' :: word ++ ['!'], rest)
      | (word, rest) => some ('!' :: word, rest)
  | _ => none

private def isNamedHandle (handle : List Char) : Bool :=
  2 ≤ handle.length && handle.getLast? == some '!'

private def tagForms (bound : Nat) : List Char → Option (TagToken × List Char)
  | '!' :: '<' :: rest => do
      match ← tagText true bound rest with
      | (first :: more, '>' :: rest) => return (⟨[], first :: more⟩, rest)
      | _ => none
  | text => do
      let (handle, rest) ← tagHandle text
      if isNamedHandle handle then
        let (suffix, rest) ← tagText false bound rest
        if suffix.isEmpty then none else return (⟨handle, suffix⟩, rest)
      else
        let (more, rest) ← tagText false bound rest
        let suffix := handle.tail ++ more
        if suffix.isEmpty then return (⟨[], ['!']⟩, rest)
        else return (⟨['!'], suffix⟩, rest)

/-- Reads the tag at the cursor. White space follows it, or a comma in a flow
collection. -/
def readTag (bound : Nat) (flow : Bool) (cursor : Cursor) :
    Option (TagToken × Cursor) := do
  let (tag, rest) ← tagForms bound cursor.rest
  let cursor := cursor.advanceTo rest
  if isGap cursor.next? || (flow && cursor.next? == some ',') then
    return (tag, cursor)
  else none

end Schemata.Yaml
