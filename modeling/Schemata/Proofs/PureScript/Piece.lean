import Schemata.Proofs.Emission.Piece
import Schemata.Proofs.PureScript.Scope

namespace Schemata.PureScript

/-! The printed module in pieces: where its lines have the data constructors and the types of
its declarations. -/

def RecordField.pieces (field : RecordField) : List Piece :=
  [.mark (field.label.text ++ " :: ".toList), .type field.type]

def DataConstructor.pieces (constructor : DataConstructor) : List Piece :=
  .value constructor.name.toList ::
    match constructor.argument with
    | some argument => [.mark [' '], .type argument]
    | none => []

def markedPieces (first further : Char) : List (List Piece) → List (List Piece)
  | [] => []
  | line :: rest =>
      (.mark ("  ".toList ++ [first, ' ']) :: line) ::
        rest.map fun line => .mark ("  ".toList ++ [further, ' ']) :: line

/-- The constructor of a record has the name of the record. -/
def Body.pieces (name : List Char) : Body → List (List Piece)
  | newtype nullable fields =>
      let opening : List Piece :=
        [.mark ("newtype ".toList ++ name ++ " = ".toList), .value name,
          .type (recordOpening nullable)]
      match fields with
      | [] => [opening ++ [.mark (" \x7b".toList ++ recordClosing nullable)]]
      | _ =>
          [opening] ++ markedPieces '\x7b' ',' (fields.map (·.pieces)) ++
            [[.mark ("  ".toList ++ recordClosing nullable)]]
  | data constructors =>
      [[.mark ("data ".toList ++ name)]] ++
        markedPieces '=' '|' (constructors.map (·.pieces))
  | synonym type => [[.mark ("type ".toList ++ name ++ " = ".toList), .type type]]

def Declaration.pieces (declaration : Declaration) : List (List Piece) :=
  (comment declaration.docs).map Piece.plain ++
    declaration.body.pieces declaration.name.toList

/-! They are the lines that are printed. -/

theorem RecordField.line_pieces (field : RecordField) :
    Piece.line field.pieces = field.text := by
  simp [pieces, text, Piece.line, Piece.text]

theorem DataConstructor.line_pieces (constructor : DataConstructor) :
    Piece.line constructor.pieces = constructor.text := by
  unfold pieces text
  cases constructor.argument <;> simp [Piece.line, Piece.text]

theorem line_markedPieces (first further : Char) (lines : List (List Piece)) :
    (markedPieces first further lines).map Piece.line =
      marked first further (lines.map Piece.line) := by
  cases lines with
  | nil => rfl
  | cons line rest => simp [markedPieces, marked, Piece.line, Piece.text, Function.comp_def]

theorem Body.line_pieces (name : List Char) (body : Body) :
    (body.pieces name).map Piece.line = body.lines name := by
  cases body with
  | newtype nullable fields =>
      cases fields with
      | nil => simp [pieces, lines, Piece.line, Piece.text]
      | cons field rest =>
          have held : ((field :: rest).map (·.pieces)).map Piece.line =
              (field :: rest).map (·.text) := by
            rw [List.map_map]
            exact List.map_congr_left fun field _ => field.line_pieces
          simp only [pieces, lines, List.map_append, line_markedPieces, held]
          simp [Piece.line, Piece.text]
  | data constructors =>
      have held : (constructors.map (·.pieces)).map Piece.line =
          constructors.map (·.text) := by
        rw [List.map_map]
        exact List.map_congr_left fun constructor _ => constructor.line_pieces
      rw [pieces, lines, List.map_append, line_markedPieces, held]
      simp [Piece.line, Piece.text]
  | synonym type => simp [pieces, lines, Piece.line, Piece.text]

theorem Declaration.text_of_pieces (declaration : Declaration) :
    declaration.text = joinLines (declaration.pieces.map Piece.line) := by
  rw [text, pieces, List.map_append, Piece.lines_plain, Body.line_pieces]

/-! Their types and values are those of the declaration. -/

section

variable {α : Type} {read : Piece → Option α} (unread : ∀ text, read (.mark text) = none)

include unread

theorem filterMap_markedPieces (first further : Char) (lines : List (List Piece)) :
    (markedPieces first further lines).flatMap (·.filterMap read) =
      lines.flatMap (·.filterMap read) := by
  cases lines with
  | nil => rfl
  | cons => simp [markedPieces, List.flatMap_map, unread]

/-- What is read off a record is read off its opening and its fields. -/
theorem Body.filterMap_newtype (name : List Char) (nullable : Bool)
    (fields : List RecordField) :
    ((newtype nullable fields).pieces name).flatMap (·.filterMap read) =
      [.value name, .type (recordOpening nullable)].filterMap read ++
        fields.flatMap fun field => field.pieces.filterMap read := by
  cases fields with
  | nil => simp [pieces, unread, List.filterMap_cons]
  | cons field rest =>
      simp only [pieces, List.flatMap_append, filterMap_markedPieces unread, List.flatMap_map]
      simp [unread, List.filterMap_cons]

theorem Body.filterMap_data (name : List Char) (constructors : List DataConstructor) :
    ((data constructors).pieces name).flatMap (·.filterMap read) =
      constructors.flatMap fun constructor => constructor.pieces.filterMap read := by
  simp only [pieces, List.flatMap_append, filterMap_markedPieces unread, List.flatMap_map]
  simp [unread]

end

theorem Body.types_pieces (name : List Char) (body : Body) :
    Piece.types (body.pieces name) = body.typeTexts := by
  cases body with
  | newtype nullable fields =>
      rw [Piece.types, filterMap_newtype fun _ => rfl, typeTexts, List.map_eq_flatMap]
      rfl
  | data constructors =>
      rw [Piece.types, filterMap_data fun _ => rfl, typeTexts,
        List.filterMap_eq_flatMap_toList]
      refine List.flatMap_congr fun constructor _ => ?_
      unfold DataConstructor.pieces
      cases constructor.argument <;> rfl
  | synonym type => rfl

namespace Declaration

theorem types_pieces (declaration : Declaration) :
    Piece.types declaration.pieces = declaration.body.typeTexts := by
  rw [pieces, Piece.types_append, Piece.types_plain, List.nil_append, Body.types_pieces]

theorem values_pieces (declaration : Declaration) :
    Piece.values declaration.pieces = declaration.constructors.map String.toList := by
  rw [pieces, Piece.values_append, Piece.values_plain, List.nil_append, constructors,
    Piece.values]
  cases declaration.body with
  | newtype nullable fields =>
      rw [Body.filterMap_newtype fun _ => rfl]
      have none_inside : (fields.flatMap fun field => field.pieces.filterMap Piece.value?) = [] :=
        List.flatMap_eq_nil_iff.mpr fun _ _ => rfl
      rw [none_inside]
      rfl
  | data constructors =>
      rw [Body.filterMap_data fun _ => rfl, List.map_map, List.map_eq_flatMap]
      refine List.flatMap_congr fun constructor _ => ?_
      unfold DataConstructor.pieces
      cases constructor.argument <;> rfl
  | synonym type => rfl

end Declaration

/-! The module. -/

/-- The declarations of a module, each line of them in pieces. -/
def pieces (options : EmitOptions) (model : Model) : List (List (List Piece)) :=
  (Declaration.ofModel options model).map (·.pieces)

theorem emit_of_pieces (options : EmitOptions) (model : Model) :
    (emit options model).map (·.text) =
      (pieces options model).map fun lines => joinLines (lines.map Piece.line) := by
  rw [emit, pieces, List.map_map, List.map_map]
  exact List.map_congr_left fun declaration _ => declaration.text_of_pieces

/-- No name stands for two of the data constructors that are printed. -/
theorem nodup_printed_values (options : EmitOptions) (model : Model) :
    ((pieces options model).flatMap Piece.values).Nodup := by
  have printed := (Declaration.nodup_ofModel options model).map fun _ _ => String.toList_injective
  rw [List.map_flatMap] at printed
  simp only [pieces, List.flatMap_map, Declaration.values_pieces]
  exact printed

/-- The types that are imported are those whose word is printed where a type stands. -/
theorem importLine_mem_iff_printed (options : EmitOptions) {model : Model}
    {imported : ImportedType}
    (absent : ∀ source ∈ model.declarations,
      imported.AbsentFrom source.definition.names) :
    imported.importLine ∈ importLines options model ↔
      ∃ lines ∈ pieces options model, ∃ text ∈ Piece.types lines, imported.OccursIn text := by
  simp only [pieces, List.mem_map, exists_exists_and_eq_and, Declaration.types_pieces]
  rw [importLine_mem_iff]
  exact Declaration.exists_mem_ofModelFrom options _ fun source member constructors =>
    ImportedType.mem_ofDeclaration options constructors (absent source member)

/-- Words stand for what they are meant to stand for in the types that are printed. -/
theorem hygienic_iff_printed (options : EmitOptions) (model : Model) :
    Hygienic options model ↔
      Sense.ReadAs (scope options model)
        ((pieces options model).map fun lines => (Piece.types lines).flatMap typeWords)
        (allSenses options model) := by
  have words : (pieces options model).map (fun lines => (Piece.types lines).flatMap typeWords) =
      (Declaration.ofModel options model).map (·.words) := by
    rw [pieces, List.map_map]
    refine List.map_congr_left fun declaration _ => ?_
    exact congrArg (List.flatMap typeWords) declaration.types_pieces
  rw [words, Hygienic]

end Schemata.PureScript
