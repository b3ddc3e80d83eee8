import Schemata.Proofs.Resolution.Unfolding
import Schemata.Proofs.TypeScript.LiteralUnion
import Schemata.Proofs.TypeScript.Member

namespace Schemata

/-! Null at the top level of what is written for a model: in the alternatives of declarations
and in the types of properties. -/

/-- Null is among the values or is a variant. -/
def Definition.OffersNull : Definition → Prop
  | enum values => .null ∈ values
  | union variants => ∃ inner, .nullable inner ∈ variants
  | _ => False

def Declaration.OffersNull (declaration : Declaration) : Prop :=
  declaration.nullable = true ∨ declaration.definition.OffersNull

namespace TypeScript

open Text

/-! What a declaration is written as. -/

namespace Declaration

variable {declaration : Declaration}

def IsWrittenAs (keyword : List Char) (declaration : Declaration) : Prop :=
  ∃ rest, declaration.HasCode ("export ".toList ++ keyword ++ ' ' :: rest)

theorem IsWrittenAs.unique {keyword other : List Char}
    (written : declaration.IsWrittenAs keyword) (also_ : declaration.IsWrittenAs other)
    (unbroken : ' ' ∉ keyword) (whole : ' ' ∉ other) : keyword = other := by
  obtain ⟨rest, code⟩ := written
  obtain ⟨more, code'⟩ := also_
  have same := code.unique code'
  rw [List.append_assoc, List.append_assoc] at same
  have first : ∀ word rest : List Char, ' ' ∉ word →
      (word ++ ' ' :: rest).takeWhile (· ≠ ' ') = word := by
    intro word rest unbroken
    rw [List.takeWhile_append_of_pos, List.takeWhile_cons_of_neg (by simp), List.append_nil]
    intro char member
    exact decide_eq_true fun blank => unbroken (blank ▸ member)
  rw [← first keyword rest unbroken, List.append_cancel_left same, first other more whole]

/-- The text is among the alternatives on the right side. -/
def HasAlternative (text : List Char) (declaration : Declaration) : Prop :=
  ∃ right, declaration.HasCode (aliasCode declaration.name.toList right) ∧
    text ∈ topLevel right

theorem aliasCode_eq (name right : List Char) :
    aliasCode name right =
      "export ".toList ++ "type".toList ++ ' ' :: (name ++ " = ".toList ++ right ++ [';']) := by
  have opening : "export type ".toList = "export ".toList ++ "type".toList ++ [' '] := by
    decide
  show "export type ".toList ++ name ++ " = ".toList ++ right ++ [';'] = _
  simp only [opening, List.append_assoc, List.cons_append, List.nil_append]

theorem isWrittenAs_type {right : List Char}
    (code : declaration.HasCode (aliasCode declaration.name.toList right)) :
    declaration.IsWrittenAs "type".toList :=
  ⟨_, aliasCode_eq declaration.name.toList right ▸ code⟩

theorem hasAlternative_iff {right text : List Char}
    (code : declaration.HasCode (aliasCode declaration.name.toList right)) :
    declaration.HasAlternative text ↔ text ∈ topLevel right := by
  refine ⟨?_, fun among => ⟨right, code, among⟩⟩
  rintro ⟨other, code', among⟩
  have same := List.append_cancel_left (List.append_cancel_right (code.unique code'))
  rwa [same]

theorem not_hasAlternative {keyword text : List Char}
    (written : declaration.IsWrittenAs keyword) (unbroken : ' ' ∉ keyword)
    (other : keyword ≠ "type".toList) : ¬declaration.HasAlternative text := by
  rintro ⟨right, code, _⟩
  exact other (written.unique (isWrittenAs_type code) unbroken (by decide))

end Declaration

/-! Objects. -/

theorem topLevel_orNull {text code : List Char} (counts : Counts '|' 0 text code) :
    topLevel (orNull text) = [unpadded (code ++ [' ']), nullText] := by
  have blank : Counts '|' 0 [' '] [' '] := counts_padding (by decide) (by decide)
  have null : Counts '|' 0 " null".toList " null".toList :=
    counts_of_flat (by decide) (by decide)
  have parts : orNull text = (text ++ [' ']) ++ '|' :: " null".toList := by simp [orNull]
  rw [topLevel, parts, cut_append_separator (counts.append blank) (by decide),
    cut_of_counts null]
  rfl

theorem exists_counts_bodyText {properties : List Property}
    (readable : ∀ property ∈ properties, property.IsReadable) :
    ∃ code, Counts '|' 1 (bodyText properties) code := by
  have each : ∃ code, Counts '|' 1 (unlines (properties.flatMap (·.lines))) code := by
    induction properties with
    | nil => exact ⟨[], counts_nil⟩
    | cons property rest induction =>
        obtain ⟨here, later⟩ := List.forall_mem_cons.mp readable
        obtain ⟨blanks, _, front⟩ := here.counts_front (by decide : '|' ∈ separators)
        obtain ⟨more, below⟩ := induction later
        have code := here.counts_code (by decide) (by decide) (here.type '|' (by decide)).1
        have ending : Counts '|' 1 ";\n".toList ";\n".toList :=
          counts_of_flat (by decide) (by decide)
        rw [List.flatMap_cons, unlines_append, property.unlines_lines]
        exact ⟨_, ((front.append code).append ending).append below⟩
  cases properties with
  | nil => exact ⟨[], counts_nil⟩
  | cons first rest =>
      obtain ⟨code, counts⟩ := each
      have feed : Counts '|' 1 ['\n'] ['\n'] := counts_padding (by decide) (by decide)
      exact ⟨_, feed.append counts⟩

section

variable {declaration : Declaration} {properties : List Property}

theorem objectCode_nullable (name body : List Char) :
    objectCode name true body = aliasCode name (orNull ('\x7b' :: body ++ ['\x7d'])) := by
  have opening : " = \x7b".toList = " = ".toList ++ ['\x7b'] := by decide
  have closing : "\x7d | null;".toList = ['\x7d'] ++ " | null".toList ++ [';'] := by decide
  show "export type ".toList ++ name ++ " = \x7b".toList ++ body ++ "\x7d | null;".toList =
    "export type ".toList ++ name ++ " = ".toList ++
      ('\x7b' :: body ++ ['\x7d'] ++ " | null".toList) ++ [';']
  simp only [opening, closing, List.append_assoc, List.cons_append, List.nil_append]

/-- An object that may be null stands beside null. -/
theorem Declaration.hasAlternative_object (body : declaration.body = .object true properties)
    (readable : ∀ property ∈ properties, property.IsReadable) :
    declaration.HasAlternative nullText := by
  obtain ⟨code, counts⟩ := exists_counts_bodyText readable
  refine ⟨orNull ('\x7b' :: bodyText properties ++ ['\x7d']), ?_, ?_⟩
  · rw [← objectCode_nullable]
    exact Declaration.hasCode_object body
  · rw [topLevel_orNull (counts_enclosed (by decide) (by decide) counts)]
    exact List.mem_cons_of_mem _ List.mem_cons_self

theorem Declaration.isWrittenAs_interface
    (body : declaration.body = .object false properties) :
    declaration.IsWrittenAs "interface".toList := by
  refine ⟨declaration.name.toList ++ " \x7b".toList ++ bodyText properties ++ "\x7d".toList, ?_⟩
  have written := Declaration.hasCode_object body
  have opening : "export interface ".toList =
      "export ".toList ++ "interface".toList ++ [' '] := by
    decide
  rw [objectCode, if_neg Bool.false_ne_true, opening] at written
  simpa only [List.append_assoc, List.cons_append, List.nil_append] using written

theorem Declaration.isWrittenAs_enum {members : List EnumMember}
    (body : declaration.body = .enum members) : declaration.IsWrittenAs "enum".toList := by
  have written := declaration.hasCode_lines
  have opening : "export enum ".toList = "export ".toList ++ "enum".toList ++ [' '] := by
    decide
  rw [body, Body.lines, intercalate_append_eq_unlines (List.cons_ne_nil _ _), unlines_append,
    List.append_assoc, unlines_cons, opening] at written
  simp only [List.append_assoc, List.cons_append, List.nil_append] at written
  exact ⟨_, by rwa [List.append_assoc]⟩

end

/-! Alternatives. -/

section

variable (options : EmitOptions) {source : Schemata.Declaration}

theorem null_mem_withNull_iff {nullable : Bool} {texts : List (List Char)} :
    nullText ∈ withNull nullable texts ↔ nullable = true ∨ nullText ∈ texts := by
  cases nullable <;> simp [withNull, nullText]

theorem null_mem_types_iff {types : List TypeRef}
    (named : ∀ name ∈ types.flatMap (·.names), IsTypeName name) (nullable : Bool) :
    nullText ∈ topLevel (" | ".toList.intercalate (withNull nullable (types.map typeText))) ↔
      nullable = true ∨ ∃ inner, .nullable inner ∈ types := by
  have each : ∀ type ∈ types, ∀ name ∈ type.names, IsTypeName name :=
    fun type member name inside => named name (List.mem_flatMap.mpr ⟨type, member, inside⟩)
  have single : ∀ text ∈ types.flatMap alternativeTexts, IsSingle text := by
    rw [List.forall_mem_flatMap]
    exact fun type member => isSingle_alternativeTexts (each type member)
  rw [withNull_eq_append, ← intercalate_flatMap_alternativeTexts, ← withNull_eq_append,
    null_mem_topLevel_iff (isSingle_withNull single), null_mem_withNull_iff, List.mem_flatMap]
  refine or_congr_right ⟨?_, ?_⟩
  · rintro ⟨type, member, null⟩
    obtain ⟨inner, rfl⟩ := (null_mem_alternativeTexts_iff (each type member)).mp null
    exact ⟨inner, member⟩
  · rintro ⟨inner, member⟩
    exact ⟨_, member, (null_mem_alternativeTexts_iff (each _ member)).mpr ⟨inner, rfl⟩⟩

theorem nullable_mem_writtenTypes_iff {definition : Definition}
    (placed : definition.NullOnElements) (other : ∀ values, definition ≠ .enum values) :
    (∃ inner, .nullable inner ∈ writtenTypes definition) ↔ definition.OffersNull := by
  cases definition with
  | enum values => exact absurd rfl (other values)
  | union variants => exact Iff.rfl
  | reference target =>
      refine iff_of_false ?_ id
      rintro ⟨inner, member⟩
      -- What a name stands for is nullable by the declaration, not by its type.
      rw [← List.mem_singleton.mp member] at placed
      exact placed
  | primitive | object | array | map | untypedMap =>
      simp [writtenTypes, Definition.OffersNull]

theorem not_mem_of_hasMembers {values : List Literal} (members : HasMembers options values) :
    .null ∉ values := by
  intro null
  have kind : LiteralKind.null ∈ literalKinds values :=
    List.mem_eraseDups.mpr (List.mem_map_of_mem null)
  obtain ⟨_, string | number⟩ := members
  · rw [string] at kind
    exact absurd kind (by decide)
  · rw [number] at kind
    exact absurd kind (by decide)

theorem hasAlternative_enum_iff {values : List Literal}
    (shape : source.definition = .enum values) :
    (Declaration.ofModel options source).HasAlternative nullText ↔ source.OffersNull := by
  rw [Schemata.Declaration.OffersNull, shape, Definition.OffersNull]
  by_cases kept : HasMembers options values ∧
      ¬(source.nullable && values.all (· ≠ .null)) = true
  · have body : (Declaration.ofModel options source).body = .enum (enumMembers values) := by
      rw [Declaration.ofModel, shape, bodyOf]
      exact if_pos kept
    -- Members are all strings or all numbers, so null is none of the values, and nullable
    -- declarations have no members.
    have absent := not_mem_of_hasMembers options kept.1
    refine iff_of_false ?_ ?_
    · exact Declaration.not_hasAlternative (Declaration.isWrittenAs_enum body) (by decide)
        (by decide)
    · have others : values.all (· ≠ .null) = true := by
        simpa [List.forall_mem_ne'] using absent
      rw [others, Bool.and_true] at kept
      exact not_or.mpr ⟨kept.2, absent⟩
  · obtain ⟨alternatives, body⟩ : ∃ alternatives,
        (Declaration.ofModel options source).body = .typeAlias alternatives := by
      rw [Declaration.ofModel, shape, bodyOf]
      exact ⟨_, if_neg kept⟩
    have own : bodyOf options source.nullable (.enum values) = .typeAlias alternatives :=
      shape ▸ body
    rw [Declaration.hasAlternative_iff (Declaration.hasCode_typeAlias body),
      alternatives_of_enum own, null_mem_topLevel_iff, null_mem_withNull_iff]
    · simp only [literalAlternatives, List.mem_map, literal_eq_null_iff, exists_eq_right,
        decide_eq_true_eq]
      tauto
    · exact isSingle_withNull (List.forall_mem_map.mpr fun value _ => isSingle_literal value)

theorem hasAlternative_types_iff (named : ∀ name ∈ source.definition.names, IsTypeName name)
    (placed : source.definition.NullOnElements)
    (other : ∀ values, source.definition ≠ .enum values)
    (body : (Declaration.ofModel options source).body =
      .typeAlias (withNull source.nullable ((writtenTypes source.definition).map typeText))) :
    (Declaration.ofModel options source).HasAlternative nullText ↔ source.OffersNull := by
  have written : ∀ name ∈ (writtenTypes source.definition).flatMap (·.names),
      IsTypeName name := fun name member => named name (names_writtenTypes _ member)
  rw [Declaration.hasAlternative_iff (Declaration.hasCode_typeAlias body),
    null_mem_types_iff written, nullable_mem_writtenTypes_iff placed other,
    Schemata.Declaration.OffersNull]

theorem hasAlternative_null_iff (named : ∀ name ∈ source.definition.names, IsTypeName name)
    (placed : source.definition.NullOnElements) :
    (Declaration.ofModel options source).HasAlternative nullText ↔ source.OffersNull := by
  cases shape : source.definition with
  | enum values => exact hasAlternative_enum_iff options shape
  | object fields =>
      have body : (Declaration.ofModel options source).body =
          .object source.nullable (fields.map (property options)) := by
        rw [Declaration.ofModel, shape, bodyOf]
      rw [shape] at named
      rw [Schemata.Declaration.OffersNull, shape]
      cases nullable : source.nullable with
      | false =>
          rw [nullable] at body
          refine iff_of_false ?_ (by simp [Definition.OffersNull])
          exact Declaration.not_hasAlternative (Declaration.isWrittenAs_interface body)
            (by decide) (by decide)
      | true =>
          rw [nullable] at body
          refine iff_of_true ?_ (.inl rfl)
          exact Declaration.hasAlternative_object body (isReadable_fields options named)
  | primitive | array | map | untypedMap | union | reference =>
      refine hasAlternative_types_iff options named placed (by simp [shape]) ?_
      rw [Declaration.ofModel, shape]
      rfl

/-! Properties and elements. -/

theorem null_mem_fieldType_iff {field : Field}
    (named : ∀ name ∈ field.type.names, IsTypeName name) (placed : field.type.NullOnElements) :
    nullText ∈ topLevel (typeText (fieldType options field)) ↔
      field.nullable = true ∧ options.nullStyle = .unionWithNull := by
  rw [← names_fieldType options field] at named
  rw [topLevel_typeText named, null_mem_alternativeTexts_iff named, fieldType]
  split
  · next both => exact iff_of_true ⟨_, rfl⟩ both
  · next neither =>
    refine iff_of_false ?_ neither
    rintro ⟨inner, nullable⟩
    rw [nullable] at placed
    exact placed

theorem null_not_mem_elements {type : TypeRef}
    (named : ∀ name ∈ type.names, IsTypeName name) :
    nullText ∉ topLevel (typeText (.array type)) ∧
      nullText ∉ topLevel (typeText (.map type)) := by
  have array : ∀ name ∈ (TypeRef.array type).names, IsTypeName name := named
  have map : ∀ name ∈ (TypeRef.map type).names, IsTypeName name := named
  rw [topLevel_typeText array, topLevel_typeText map, null_mem_alternativeTexts_iff array,
    null_mem_alternativeTexts_iff map]
  exact ⟨nofun, nofun⟩

/-- Where a property may be null, one of the styles says so by its type and the other by its
mark. -/
def KeepsNull (options : EmitOptions) (field : Field) (member : Member) : Prop :=
  match options.nullStyle with
  | .unionWithNull =>
      (nullText ∈ topLevel member.type ↔ field.nullable = true) ∧
        (member.optional = true ↔ field.required = false)
  | .optionalField =>
      nullText ∉ topLevel member.type ∧
        (member.optional = true ↔ field.nullable = true ∨ field.required = false)

theorem keepsNull_property {field : Field}
    (named : ∀ name ∈ field.type.names, IsTypeName name) (placed : field.type.NullOnElements) :
    KeepsNull options field (property options field).member := by
  have null := null_mem_fieldType_iff options named placed
  have type : (property options field).member.type = typeText (fieldType options field) :=
    congrArg Prod.snd (signature_eq options field)
  have optional : (property options field).member.optional = (signature options field).1 := rfl
  rw [signature_eq] at optional
  rw [KeepsNull, type]
  cases style : options.nullStyle with
  | unionWithNull =>
      rw [style] at null optional
      exact ⟨null.trans (and_iff_left rfl), by simp [optional]⟩
  | optionalField =>
      rw [style] at null optional
      exact ⟨fun among => absurd (null.mp among).2 nofun, by simp [optional]⟩

/-- What is written for a declaration has null at the top level exactly where the declaration
and its fields have it. -/
structure NullsKept (options : EmitOptions) (source : Schemata.Declaration)
    (printed : Declaration) : Prop where
  alternative : printed.HasAlternative nullText ↔ source.OffersNull
  keyword : source.OffersNull →
    ¬printed.IsWrittenAs "interface".toList ∧ ¬printed.IsWrittenAs "enum".toList
  properties : ∀ fields, source.definition = .object fields → ∃ body members,
    printed.HasCode (objectCode source.name.toList source.nullable body) ∧
    readMembers body = some members ∧ List.Forall₂ (KeepsNull options) fields members
  elements : ∀ type : TypeRef, type.names ⊆ source.definition.names →
    nullText ∉ topLevel (typeText (.array type)) ∧
      nullText ∉ topLevel (typeText (.map type))

end

/-- No null is lost and none is made up. -/
theorem nulls_are_kept {document : Node} {model : Model}
    (compiles : compile document = .ok model) (options : EmitOptions) :
    ∀ source ∈ model.declarations,
      NullsKept options source (Declaration.ofModel options source) := by
  intro source member
  obtain ⟨forest, _, resolves⟩ := Outcome.bind_eq_ok_iff.mp compiles
  have named := isTypeName_of_mentioned resolves source member
  obtain ⟨assignment, resolved⟩ := Resolution.resolved_of_ok resolves
  obtain ⟨root, declared, node, inside, _, definition⟩ := resolved.node_of_mem member
  have placed : source.definition.NullOnElements :=
    definition ▸ Resolution.nullOnElements_definitionOf _ _ _
  have null := hasAlternative_null_iff options named placed
  constructor
  case alternative => exact null
  case keyword =>
    intro offers
    have offered := null.mpr offers
    refine ⟨fun written => ?_, fun written => ?_⟩
    · exact Declaration.not_hasAlternative written (by decide) (by decide) offered
    · exact Declaration.not_hasAlternative written (by decide) (by decide) offered
  case properties =>
    intro fields shape
    obtain ⟨body, code, members⟩ := members_of_object options shape named
    refine ⟨body, _, code, members, ?_⟩
    refine List.forall₂_map_right_iff.mpr (List.forall₂_same.mpr fun field among => ?_)
    rw [shape] at named placed
    exact keepsNull_property options (fun name mentioned => named name
      (List.mem_flatMap.mpr ⟨field.type, List.mem_map_of_mem among, mentioned⟩))
      (placed field among)
  case elements =>
    exact fun type inside => null_not_mem_elements fun name mentioned =>
      named name (inside mentioned)

end TypeScript

/-- Null in every place that a declaration can have it in. -/
def Document.ledger : Node :=
  .mapping ⟨[]⟩ [("$defs", .mapping ⟨["$defs"]⟩
    [("Entry", .mapping ⟨["$defs", "Entry"]⟩
        [("type", .sequence ⟨["$defs", "Entry", "type"]⟩
            [.scalar ⟨["$defs", "Entry", "type", "0"]⟩ (.string "object"),
              .scalar ⟨["$defs", "Entry", "type", "1"]⟩ (.string "null")]),
          ("properties", .mapping ⟨["$defs", "Entry", "properties"]⟩
            [("notes", .mapping ⟨["$defs", "Entry", "properties", "notes"]⟩
              [("nullable", .scalar ⟨["$defs", "Entry", "properties", "notes", "nullable"]⟩
                  (.bool true)),
                ("items", .mapping ⟨["$defs", "Entry", "properties", "notes", "items"]⟩
                  [("type", .sequence
                      ⟨["$defs", "Entry", "properties", "notes", "items", "type"]⟩
                    [.scalar ⟨["$defs", "Entry", "properties", "notes", "items", "type", "0"]⟩
                        (.string "string"),
                      .scalar ⟨["$defs", "Entry", "properties", "notes", "items", "type", "1"]⟩
                        (.string "null")])])])])]),
      ("Side", .mapping ⟨["$defs", "Side"]⟩
        [("enum", .sequence ⟨["$defs", "Side", "enum"]⟩
          [.scalar ⟨["$defs", "Side", "enum", "0"]⟩ (.string "debit"),
            .scalar ⟨["$defs", "Side", "enum", "1"]⟩ .null])])])]

open TypeScript in
theorem nulls_are_kept_ledger : ∃ model, compile Document.ledger = .ok model ∧
    (model.declarations.map fun source => (source.name, source.nullable)) =
      [("Entry", true), ("Side", false)] ∧
    ∀ source ∈ model.declarations, NullsKept ⟨.namedEnum, .unionWithNull⟩ source
      (Declaration.ofModel ⟨.namedEnum, .unionWithNull⟩ source) := by
  have computed : (compile Document.ledger).toOption.map (fun model =>
      model.declarations.map fun source => (source.name, source.nullable)) =
        some [("Entry", true), ("Side", false)] := by
    decide +kernel
  cases compiles : compile Document.ledger with
  | error => rw [compiles] at computed; cases computed
  | ok model =>
      rw [compiles] at computed
      exact ⟨model, rfl, Option.some.inj computed, nulls_are_kept compiles _⟩

end Schemata
