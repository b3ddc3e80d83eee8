import Schemata.Yaml.Cursor

namespace Schemata.Yaml

/-! Scalars written as indented lines below an indicator. -/

inductive BlockStyle where
  | literal
  | folded
  deriving DecidableEq

/-- What becomes of the line breaks at the end. -/
inductive Chomping where
  | strip
  | clip
  | keep
  deriving DecidableEq

structure BlockHeader where
  chomping : Chomping
  /-- The indentation relative to the surrounding block. -/
  indent : Option Nat

private def chomping? (cursor : Cursor) : Option (Chomping × Cursor) :=
  match cursor.next? with
  | some '-' => some (.strip, cursor.advance 1)
  | some '+' => some (.keep, cursor.advance 1)
  | _ => none

/-- The digit zero is no indentation. -/
private def indentation? (cursor : Cursor) : Option (Option Nat × Cursor) :=
  match cursor.next? with
  | some digit =>
      if digit.isDigit then
        if digit = '0' then none
        else some (some (digit.toNat - '0'.toNat), cursor.advance 1)
      else some (none, cursor)
  | none => some (none, cursor)

/-- The two indicators may come in either order. -/
private def indicators (cursor : Cursor) : Option (BlockHeader × Cursor) :=
  match chomping? cursor with
  | some (chomping, cursor) => do
      let (indent, cursor) ← indentation? cursor
      return (⟨chomping, indent⟩, cursor)
  | none => do
      let (indent, cursor) ← indentation? cursor
      match indent.bind fun _ => chomping? cursor with
      | some (chomping, cursor) => return (⟨chomping, indent⟩, cursor)
      | none => return (⟨.clip, indent⟩, cursor)

def blockHeader (cursor : Cursor) : Option (BlockHeader × Cursor) := do
  let (header, cursor) ← indicators (cursor.advance 1)
  let cursor := cursor.dropWhile isWhite
  let cursor :=
    if cursor.next? == some '#' then cursor.dropWhile (!isBreak ·) else cursor
  if cursor.next?.all isBreak then return (header, cursor.nextLine) else none

/-- Empty lines and the indentation of the line after them. -/
structure BlockMargin where
  breaks : List Char
  widest : Nat
  cursor : Cursor

/-- Without a limit, the indentation is as wide as it comes. Tabs cannot stand for
it. -/
private def blockMarginFrom (limit : Option Nat) :
    (bound : Nat) → (breaks : List (List Char)) → (widest : Nat) → Cursor →
      Option BlockMargin
  | 0, _, _, _ => none
  | bound + 1, breaks, widest, cursor =>
      let spaces := (cursor.rest.takeWhile (· == ' ')).length
      let taken :=
        match limit with
        | none => spaces
        | some limit => min spaces (limit - cursor.column)
      let cursor := cursor.advance taken
      let widest := max widest cursor.column
      if cursor.next? == some '\t' && limit.all (cursor.column < ·) then none
      else if cursor.next?.any isBreak then
        blockMarginFrom limit bound (cursor.breakAhead :: breaks) widest
          cursor.nextLine
      else some ⟨breaks.reverse.flatten, widest, cursor⟩

def blockMargin (bound : Nat) (limit : Option Nat) (cursor : Cursor) :
    Option BlockMargin :=
  blockMarginFrom limit bound [] 0 cursor

/-- The lines read so far: their text in reverse pieces, the break after the last
one, whether it begins with white space, and the empty lines after it. -/
private structure BlockLines where
  pieces : List (List Char)
  lastBreak : List Char
  indented : Bool
  emptyLines : List Char

/-- Folding joins two lines that both begin at the indentation. -/
private def BlockLines.joint (style : BlockStyle) (indented : Bool)
    (lines : BlockLines) : List Char :=
  if style = .folded ∧ lines.lastBreak = ['\n'] ∧ ¬lines.indented ∧ ¬indented then
    if lines.emptyLines.isEmpty then [' '] else lines.emptyLines
  else lines.lastBreak ++ lines.emptyLines

private def blockLines (style : BlockStyle) (indent : Nat) :
    (bound : Nat) → BlockLines → Cursor → Option (BlockLines × Cursor)
  | 0, _, _ => none
  | bound + 1, lines, cursor => do
      if cursor.column ≠ indent ∨ cursor.rest.isEmpty then return (lines, cursor)
      let indented := cursor.next?.any isWhite
      let text := cursor.rest.takeWhile (!isBreak ·)
      let lineEnd := cursor.advance text.length
      let margin ← blockMargin (bound + 1) (some indent) lineEnd.nextLine
      blockLines style indent bound
        { pieces := text :: lines.joint style indented :: lines.pieces
          lastBreak := lineEnd.breakAhead
          indented
          emptyLines := margin.breaks }
        margin.cursor

/-- Reads the scalar whose indicator is at the cursor, inside a block that is
indented by `outer` columns, or by -1 for the document itself. -/
def blockScalar (bound : Nat) (style : BlockStyle) (outer : Int)
    (cursor : Cursor) : Option (List Char × Cursor) := do
  let (header, cursor) ← blockHeader cursor
  let limit := header.indent.map fun indent => outer.toNat + indent
  let margin ← blockMargin bound limit cursor
  let indent := limit.getD (max (max margin.widest (outer + 1).toNat) 1)
  let (lines, cursor) ←
    blockLines style indent bound ⟨[], [], false, margin.breaks⟩ margin.cursor
  let ending :=
    match header.chomping with
    | .strip => []
    | .clip => lines.lastBreak
    | .keep => lines.lastBreak ++ lines.emptyLines
  return (lines.pieces.reverse.flatten ++ ending, cursor)

end Schemata.Yaml
