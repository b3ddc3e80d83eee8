import Schemata.Yaml.Character

namespace Schemata.Yaml

/-! A place in a text, and the white space and line breaks that lie ahead. -/

structure Cursor where
  rest : List Char
  /-- The number of bytes in front of it in UTF-8. -/
  offset : Nat
  line : Nat
  column : Nat

/-- White space in a line and the line breaks after it, each with the text it
stands for and the white space at the start of the next line. -/
structure Gap where
  spaces : List Char
  breaks : List (List Char × List Char)

namespace Gap

def IsBroken (gap : Gap) : Prop := gap.breaks ≠ []

instance (gap : Gap) : Decidable gap.IsBroken :=
  inferInstanceAs (Decidable (_ ≠ _))

def breakTexts (gap : Gap) : List Char :=
  gap.breaks.flatMap (·.1)

/-- One line feed is folded into a space, and the first of several is dropped. -/
def folded (gap : Gap) : List Char :=
  match gap.breaks with
  | [] => gap.spaces
  | (first, _) :: more =>
      let more := more.flatMap (·.1)
      if first = ['\n'] then
        if more.isEmpty then [' '] else more
      else first ++ more

/-- White space before the indentation of a line may not hold tabs. -/
def HasTabWithin (indent : Nat) (gap : Gap) : Prop :=
  ∃ line ∈ gap.breaks, '\t' ∈ line.2.take indent

instance (indent : Nat) (gap : Gap) : Decidable (gap.HasTabWithin indent) :=
  inferInstanceAs (Decidable (∃ line ∈ gap.breaks, '\t' ∈ line.2.take indent))

/-- The gap at the start of a text, its number of bytes and what follows it. -/
def read : List Char → Gap × Nat × List Char
  | '\r' :: '\n' :: rest =>
      let (gap, size, rest) := read rest
      (⟨[], (['\n'], gap.spaces) :: gap.breaks⟩, size + 2, rest)
  | char :: rest =>
      if isWhite char then
        let (gap, size, rest) := read rest
        (⟨char :: gap.spaces, gap.breaks⟩, size + char.utf8Size, rest)
      else if isBreak char then
        let (gap, size, rest) := read rest
        (⟨[], (breakText char, gap.spaces) :: gap.breaks⟩, size + char.utf8Size, rest)
      else (⟨[], []⟩, 0, char :: rest)
  | [] => (⟨[], []⟩, 0, [])

end Gap

namespace Cursor

def start (text : List Char) : Cursor := ⟨text, 0, 0, 0⟩

def next? (cursor : Cursor) : Option Char := cursor.rest.head?

def after? (cursor : Cursor) (count : Nat) : Option Char := cursor.rest[count]?

private def byteCount (text : List Char) : Nat :=
  text.foldl (fun count char => count + char.utf8Size) 0

def advance (cursor : Cursor) (count : Nat) : Cursor :=
  let (skipped, rest) := cursor.rest.splitAt count
  ⟨rest, cursor.offset + byteCount skipped, cursor.line, cursor.column + count⟩

def advanceTo (cursor : Cursor) (rest : List Char) : Cursor :=
  cursor.advance (cursor.rest.length - rest.length)

def dropWhile (cursor : Cursor) (matching : Char → Bool) : Cursor :=
  cursor.advance (cursor.rest.takeWhile matching).length

/-- The text of the line break ahead, which is empty when there is none. -/
def breakAhead (cursor : Cursor) : List Char :=
  match cursor.next? with
  | some char => if isBreak char then breakText char else []
  | none => []

def nextLine (cursor : Cursor) : Cursor :=
  match cursor.rest with
  | '\r' :: '\n' :: rest => ⟨rest, cursor.offset + 2, cursor.line + 1, 0⟩
  | char :: rest =>
      if isBreak char then ⟨rest, cursor.offset + char.utf8Size, cursor.line + 1, 0⟩
      else cursor
  | [] => cursor

def gap (cursor : Cursor) : Gap × Cursor :=
  let (gap, size, rest) := Gap.read cursor.rest
  let column :=
    match gap.breaks.getLast? with
    | some (_, margin) => margin.length
    | none => cursor.column + gap.spaces.length
  (gap, ⟨rest, cursor.offset + size, cursor.line + gap.breaks.length, column⟩)

private def marks (mark : Char) (cursor : Cursor) : Bool :=
  cursor.rest.take 3 == [mark, mark, mark] && isGap (cursor.after? 3)

def atDocumentStart (cursor : Cursor) : Bool :=
  cursor.column == 0 && cursor.marks '-'

def atDocumentEnd (cursor : Cursor) : Bool :=
  cursor.column == 0 && cursor.marks '.'

def atDocumentMark (cursor : Cursor) : Bool :=
  cursor.atDocumentStart || cursor.atDocumentEnd

end Cursor

end Schemata.Yaml
