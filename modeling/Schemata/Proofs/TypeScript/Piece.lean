import Schemata.Proofs.Emission.Piece
import Schemata.Proofs.TypeScript.Scope

namespace Schemata.TypeScript

/-! The printed file in pieces: where its lines have the types of its declarations. -/

def Property.pieces (property : Property) : List (List Piece) :=
  (comment "  ".toList property.docs).map Piece.plain ++
    [[.mark ("  ".toList ++ property.key ++ (if property.optional then ['?'] else []) ++
        ": ".toList),
      .type property.type, .mark [';']]]

def alternativePieces : List (List Char) → List Piece
  | [] => []
  | [last] => [.type last]
  | first :: rest => .type first :: .mark " | ".toList :: alternativePieces rest

def enclosedPieces (opening closing : List Piece) :
    List (List Piece) → List (List Piece)
  | [] => [opening ++ closing]
  | lines => [opening] ++ lines ++ [closing]

def Body.pieces (name : List Char) : Body → List (List Piece)
  | object false properties =>
      enclosedPieces [.mark ("export interface ".toList ++ name ++ " \x7b".toList)]
        [.mark "\x7d".toList] (properties.flatMap (·.pieces))
  | object true properties =>
      enclosedPieces [.mark ("export type ".toList ++ name ++ " = \x7b".toList)]
        [.mark "\x7d | ".toList, .type "null".toList, .mark [';']]
        (properties.flatMap (·.pieces))
  | enum members => ((enum members).lines name).map Piece.plain
  | typeAlias alternatives =>
      [.mark ("export type ".toList ++ name ++ " = ".toList) ::
        alternativePieces alternatives ++ [.mark [';']]]

def Declaration.pieces (declaration : Declaration) : List (List Piece) :=
  (comment [] declaration.docs).map Piece.plain ++
    declaration.body.pieces declaration.name.toList

/-! They are the lines that are printed. -/

theorem Property.line_pieces (property : Property) :
    property.pieces.map Piece.line = property.lines := by
  rw [pieces, lines, List.map_append, Piece.lines_plain]
  simp [Piece.line, Piece.text]

theorem line_alternativePieces (alternatives : List (List Char)) :
    Piece.line (alternativePieces alternatives) = " | ".toList.intercalate alternatives := by
  fun_induction alternativePieces alternatives with
  | case1 => rfl
  | case2 last => simp [Piece.line, Piece.text]
  | case3 first rest more induction =>
      rw [List.intercalate_cons_of_ne_nil fun none => more none, ← induction]
      simp [Piece.line, Piece.text]

theorem line_enclosedPieces (opening closing : List Piece) (lines : List (List Piece)) :
    (enclosedPieces opening closing lines).map Piece.line =
      enclosed (Piece.line opening) (Piece.line closing) (lines.map Piece.line) := by
  cases lines with
  | nil => exact congrArg (fun line => [line]) (Piece.line_append _ _)
  | cons => simp [enclosedPieces, enclosed]

theorem Body.line_pieces (name : List Char) (body : Body) :
    (body.pieces name).map Piece.line = body.lines name := by
  cases body with
  | object nullable properties =>
      have held : (properties.flatMap (·.pieces)).map Piece.line =
          properties.flatMap (·.lines) := by
        rw [List.map_flatMap]
        exact List.flatMap_congr fun property _ => property.line_pieces
      cases nullable with
      | false =>
          rw [pieces, line_enclosedPieces, held, lines]
          simp [Piece.line, Piece.text]
      | true =>
          rw [pieces, line_enclosedPieces, held, lines]
          simp [Piece.line, Piece.text]
  | enum members => exact Piece.lines_plain _
  | typeAlias alternatives =>
      have held := line_alternativePieces alternatives
      rw [Piece.line] at held
      simp only [pieces, lines, List.map_singleton, Piece.line, Piece.text, List.cons_append,
        List.flatMap_cons, List.flatMap_append, List.flatMap_nil, List.append_nil, held,
        List.append_assoc]

theorem Declaration.text_of_pieces (declaration : Declaration) :
    declaration.text = joinLines (declaration.pieces.map Piece.line) := by
  rw [text, pieces, List.map_append, Piece.lines_plain, Body.line_pieces]

/-! Their types are those of the declaration. -/

theorem types_alternativePieces (alternatives : List (List Char)) :
    (alternativePieces alternatives).filterMap Piece.type? = alternatives := by
  fun_induction alternativePieces alternatives with
  | case1 | case2 => rfl
  | case3 first rest more induction =>
      simp only [List.filterMap_cons, Piece.type?, induction]

theorem Property.types_pieces (property : Property) :
    Piece.types property.pieces = [property.type] := by
  rw [pieces, Piece.types_append, Piece.types_plain]
  rfl

theorem types_properties (properties : List Property) :
    Piece.types (properties.flatMap (·.pieces)) = properties.map (·.type) := by
  induction properties with
  | nil => rfl
  | cons property rest induction =>
      rw [List.flatMap_cons, Piece.types_append, property.types_pieces, induction]
      rfl

theorem types_enclosedPieces (opening closing : List Piece) (lines : List (List Piece)) :
    Piece.types (enclosedPieces opening closing lines) =
      opening.filterMap Piece.type? ++ Piece.types lines ++ closing.filterMap Piece.type? := by
  cases lines with
  | nil => simp [enclosedPieces, Piece.types]
  | cons => simp [enclosedPieces, Piece.types]

theorem Body.types_pieces (name : List Char) (body : Body) :
    Piece.types (body.pieces name) = body.typeTexts := by
  cases body with
  | object nullable properties =>
      cases nullable <;>
        simp [pieces, types_enclosedPieces, types_properties, typeTexts, withNull, Piece.type?,
          List.filterMap_cons]
  | enum members => exact Piece.types_plain _
  | typeAlias alternatives =>
      have held := types_alternativePieces alternatives
      simp [pieces, Piece.types, typeTexts, Piece.type?, List.filterMap_cons, held]

theorem Declaration.types_pieces (declaration : Declaration) :
    Piece.types declaration.pieces = declaration.body.typeTexts := by
  rw [pieces, Piece.types_append, Piece.types_plain, List.nil_append, Body.types_pieces]

/-! The file. -/

/-- The declarations of a file, each line of them in pieces. -/
def pieces (options : EmitOptions) (model : Model) : List (List (List Piece)) :=
  (model.declarations.map (Declaration.ofModel options)).map (·.pieces)

theorem emit_of_pieces (options : EmitOptions) (model : Model) :
    (emit options model).map (·.text) =
      (pieces options model).map fun lines => joinLines (lines.map Piece.line) := by
  rw [emit, pieces, List.map_map, List.map_map, List.map_map]
  exact List.map_congr_left fun declaration _ =>
    (Declaration.ofModel options declaration).text_of_pieces

/-- Words stand for what they are meant to stand for in the types that are printed. -/
theorem hygienic_iff_printed (options : EmitOptions) (model : Model) :
    Hygienic options model ↔
      Sense.ReadAs (scope options model)
        ((pieces options model).map fun lines => (Piece.types lines).flatMap typeWords)
        (allSenses options model) := by
  have words : (pieces options model).map (fun lines => (Piece.types lines).flatMap typeWords) =
      (model.declarations.map (Declaration.ofModel options)).map (·.words) := by
    rw [pieces, List.map_map]
    refine List.map_congr_left fun declaration _ => ?_
    exact congrArg (List.flatMap typeWords) declaration.types_pieces
  rw [words, Hygienic]

end Schemata.TypeScript
