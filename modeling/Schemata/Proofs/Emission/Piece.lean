import Schemata.Emission.Source

namespace Schemata

/-! Printed lines in pieces. A piece stands where a type stands, where the name of a value
stands, or anywhere else. -/

inductive Piece where
  | type (text : List Char)
  /-- A data constructor. -/
  | value (name : List Char)
  | mark (text : List Char)

namespace Piece

def text : Piece → List Char
  | type text | value text | mark text => text

def type? : Piece → Option (List Char)
  | type text => some text
  | value _ | mark _ => none

def value? : Piece → Option (List Char)
  | value name => some name
  | type _ | mark _ => none

/-- The line that is made up of the pieces. -/
def line (pieces : List Piece) : List Char :=
  pieces.flatMap text

def types (lines : List (List Piece)) : List (List Char) :=
  lines.flatMap (·.filterMap type?)

def values (lines : List (List Piece)) : List (List Char) :=
  lines.flatMap (·.filterMap value?)

theorem line_append (left right : List Piece) : line (left ++ right) = line left ++ line right :=
  List.flatMap_append

@[simp] theorem types_append (left right : List (List Piece)) :
    types (left ++ right) = types left ++ types right :=
  List.flatMap_append

@[simp] theorem values_append (left right : List (List Piece)) :
    values (left ++ right) = values left ++ values right :=
  List.flatMap_append

/-- A line in which nothing stands for a type or a value. -/
def plain (line : List Char) : List Piece := [mark line]

theorem lines_plain (lines : List (List Char)) : (lines.map plain).map line = lines := by
  rw [List.map_map]
  exact List.map_id'' (fun _ => List.append_nil _) lines

theorem types_plain (lines : List (List Char)) : types (lines.map plain) = [] := by
  simp [types, List.flatMap_map, plain, type?]

theorem values_plain (lines : List (List Char)) : values (lines.map plain) = [] := by
  simp [values, List.flatMap_map, plain, value?]

end Piece

end Schemata
