import Schemata.Yaml.Cursor

namespace Schemata.Yaml

/-! Scalars without quotes. -/

/-- The characters up to white space or to an indicator that ends the scalar. In a
flow collection, a colon right before an indicator is refused. -/
def plainStretch (flow : Bool) : List Char → Option (List Char)
  | [] => some []
  | char :: rest =>
      let next := rest.head?
      if isWhite char || isBreak char then some []
      else if flow && char == ':' &&
          next.any (fun next => next == ',' || next == '?' || isFlowBracket next) then
        none
      else if (char == ':' && isGap next) ||
          (flow && (char == ',' || isFlowBracket char)) then
        some []
      else do return char :: (← plainStretch flow rest)

structure PlainScalar where
  text : List Char
  /-- A line break follows that does not belong to the text. -/
  broken : Bool
  cursor : Cursor

/-- Joins stretches with the gaps between them. `pieces` are the earlier ones in
reverse and `gap` is the text of the gap before the cursor. -/
private def plainFrom (flow : Bool) (indent : Nat) :
    (bound : Nat) → (pieces : List (List Char)) → (gap : Gap) → Cursor →
      Option PlainScalar
  | 0, _, _, _ => none
  | bound + 1, pieces, gap, cursor => do
      let finish (pieces : List (List Char)) (gap : Gap) (cursor : Cursor) :
          PlainScalar :=
        ⟨pieces.reverse.flatten, gap.IsBroken, cursor⟩
      if cursor.atDocumentMark || cursor.next? == some '#' then
        return finish pieces gap cursor
      let stretch ← plainStretch flow cursor.rest
      if stretch.isEmpty then return finish pieces gap cursor
      let cursor := cursor.advance stretch.length
      let pieces := stretch :: gap.folded :: pieces
      let (gap, after) := cursor.gap
      if after.offset = cursor.offset then return finish pieces gap cursor
      if gap.HasTabWithin indent then none
      else if !flow && after.column < indent then return finish pieces gap after
      else plainFrom flow indent bound pieces gap after

/-- Reads the scalar that begins at the cursor. Further lines of it are indented by
at least `indent` columns, except in a flow collection. -/
def plainScalar (bound : Nat) (flow : Bool) (indent : Nat) (cursor : Cursor) :
    Option PlainScalar :=
  plainFrom flow indent bound [] ⟨[], []⟩ cursor

end Schemata.Yaml
