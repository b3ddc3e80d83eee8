import Schemata.Proofs.Emission.Scope
import Schemata.Proofs.TypeScript.Alias
import Schemata.TypeScript.Module

namespace Schemata.TypeScript

/-! What the types of a file are meant to be, word by word, against what is printed. -/

/-- The texts of a body that stand where a type stands. -/
def Body.typeTexts : Body → List (List Char)
  | object nullable properties => withNull nullable (properties.map (·.type))
  | enum _ => []
  | typeAlias alternatives => alternatives

def Declaration.words (printed : Declaration) : List (List Char) :=
  printed.body.typeTexts.flatMap typeWords

/-! What is meant. -/

def nullSense : Sense := .builtIn "null".toList

def typeSenses : TypeRef → List Sense
  | .primitive kind => [.builtIn (primitiveText kind)]
  | .named name => [.declared name.toList]
  | .array element => typeSenses element
  | .map values =>
      .builtIn "Record".toList :: .builtIn "string".toList :: typeSenses values
  | .untypedMap =>
      [.builtIn "Record".toList, .builtIn "string".toList, .builtIn "unknown".toList]
  | .nullable inner => typeSenses inner ++ [nullSense]

/-- A text or a number is a literal type without words. -/
def literalSenses : Literal → List Sense
  | .string _ | .number _ => []
  | .boolean true => [.builtIn "true".toList]
  | .boolean false => [.builtIn "false".toList]
  | .null => [nullSense]

def orNullSense (nullable : Bool) (senses : List Sense) : List Sense :=
  if nullable then senses ++ [nullSense] else senses

def fieldSenses (options : EmitOptions) (field : Field) : List Sense :=
  orNullSense (field.nullable && options.nullStyle = .unionWithNull)
    (typeSenses field.type)

def senses (options : EmitOptions) (source : Schemata.Declaration) : List Sense :=
  match source.definition with
  | .object fields => orNullSense source.nullable (fields.flatMap (fieldSenses options))
  | .enum values =>
      let nullable := source.nullable && values.all (· ≠ .null)
      if HasMembers options values ∧ ¬nullable then []
      else orNullSense nullable (values.flatMap literalSenses)
  | definition =>
      orNullSense source.nullable ((writtenTypes definition).flatMap typeSenses)

/-! What is printed has the words of what is meant. -/

theorem typeWords_typeText {type : TypeRef} (named : ∀ name ∈ type.names, IsTypeName name) :
    typeWords (typeText type) = (typeSenses type).map Sense.word := by
  rw [typeWords_of_type (beginsType_typeText named)]
  induction type with
  | primitive kind => exact Text.wordsBetween_word (by cases kind <;> decide)
  | named name =>
      have word := named name List.mem_cons_self
      exact Text.wordsBetween_word (Text.isWordBetween_of_isWordText
        (fun _ => not_breaksType) word.nonempty word.letters)
  | array element induction =>
      rw [typeText, words_arrayText, induction named, typeSenses]
  | map values induction =>
      rw [typeText, words_recordText, induction named]
      rfl
  | untypedMap => decide
  | nullable inner induction =>
      rw [typeText, words_orNull, induction named, typeSenses, List.map_append]
      rfl

theorem typeWords_orNull {type : TypeRef} (named : ∀ name ∈ type.names, IsTypeName name) :
    typeWords (orNull (typeText type)) = (typeSenses type ++ [nullSense]).map Sense.word := by
  have whole : ∀ name ∈ (TypeRef.nullable type).names, IsTypeName name := named
  exact typeWords_typeText whole

theorem typeWords_signature (options : EmitOptions) {field : Field}
    (named : ∀ name ∈ field.type.names, IsTypeName name) :
    typeWords (signature options field).2 = (fieldSenses options field).map Sense.word := by
  unfold signature fieldSenses
  cases field.nullable with
  | false => exact typeWords_typeText named
  | true =>
      cases options.nullStyle with
      | optionalField => exact typeWords_typeText named
      | unionWithNull => exact typeWords_orNull named

theorem typeWords_literal (value : Literal) :
    typeWords value.text.toList = (literalSenses value).map Sense.word := by
  cases value with
  | string value => exact typeWords_of_value (beginsValue_string value)
  | number value =>
      rw [Literal.text, String.toList_ofList]
      exact typeWords_of_value (beginsValue_number value)
  | boolean value => cases value <;> decide
  | null => decide

private theorem words_withNull {nullable : Bool} {alternatives : List (List Char)}
    {meant : List Sense}
    (spelled : alternatives.flatMap typeWords = meant.map Sense.word) :
    (withNull nullable alternatives).flatMap typeWords =
      (orNullSense nullable meant).map Sense.word := by
  cases nullable with
  | false => exact spelled
  | true =>
      simp only [withNull, orNullSense, if_true, List.flatMap_append, List.map_append,
        spelled]
      rfl

theorem words_ofModel (options : EmitOptions) {source : Schemata.Declaration}
    (named : ∀ name ∈ source.definition.names, IsTypeName name) :
    (Declaration.ofModel options source).words =
      (senses options source).map Sense.word := by
  have types : ∀ type ∈ source.definition.types, ∀ name ∈ type.names, IsTypeName name :=
    fun type member name mentioned =>
      named name (List.mem_flatMap.mpr ⟨type, member, mentioned⟩)
  cases shape : source.definition with
  | object fields =>
      rw [shape] at types
      simp only [Declaration.words, Declaration.ofModel, senses, shape, bodyOf,
        Body.typeTexts, List.map_map]
      refine words_withNull (Sense.words_of_each fun field member => ?_)
      exact typeWords_signature options (types field.type (List.mem_map_of_mem member))
  | enum values =>
      simp only [Declaration.words, Declaration.ofModel, senses, shape, bodyOf]
      split
      · rfl
      · exact words_withNull (Sense.words_of_each fun value _ => typeWords_literal value)
  | primitive | array | map | untypedMap | union | reference =>
      have written : ∀ type ∈ writtenTypes source.definition,
          typeWords (typeText type) = (typeSenses type).map Sense.word :=
        fun type member => typeWords_typeText fun name mentioned =>
          named name (names_writtenTypes _
            (List.mem_flatMap.mpr ⟨type, member, mentioned⟩))
      rw [shape] at written
      simp only [Declaration.words, Declaration.ofModel, senses, shape, bodyOf,
        Body.typeTexts]
      exact words_withNull (Sense.words_of_each written)

/-! What can be meant. -/

/-- The built-in types that are written with a capital, as declarations are. -/
def builtIns : List (List Char) :=
  ["Blob".toList, "Record".toList]

def IsBuiltIn (word : List Char) : Prop :=
  word ∈ builtIns ∨ StartsApart word

instance (word : List Char) : Decidable (IsBuiltIn word) :=
  inferInstanceAs (Decidable (_ ∨ _))

theorem isOf_nullSense (names : List String) : nullSense.IsOf IsBuiltIn names := by
  have keyword : IsBuiltIn "null".toList := by decide
  exact keyword

theorem isOf_orNullSense {names : List String} {meant : List Sense} (nullable : Bool)
    (each : ∀ sense ∈ meant, sense.IsOf IsBuiltIn names) :
    ∀ sense ∈ orNullSense nullable meant, sense.IsOf IsBuiltIn names := by
  cases nullable with
  | false => exact each
  | true =>
      exact List.forall_mem_append.mpr
        ⟨each, List.forall_mem_singleton.mpr (isOf_nullSense names)⟩

theorem isOf_typeSenses (type : TypeRef) :
    ∀ sense ∈ typeSenses type, sense.IsOf IsBuiltIn type.names := by
  have record : IsBuiltIn "Record".toList := by decide
  have string : IsBuiltIn "string".toList := by decide
  have unknown : IsBuiltIn "unknown".toList := by decide
  induction type with
  | primitive kind =>
      have known : IsBuiltIn (primitiveText kind) := by
        cases kind <;> decide
      exact List.forall_mem_singleton.mpr known
  | named name =>
      exact List.forall_mem_singleton.mpr ⟨name, List.mem_cons_self, rfl⟩
  | array element induction => exact induction
  | map values induction =>
      exact List.forall_mem_cons.mpr
        ⟨record, List.forall_mem_cons.mpr ⟨string, induction⟩⟩
  | untypedMap =>
      exact List.forall_mem_cons.mpr ⟨record, List.forall_mem_cons.mpr
        ⟨string, List.forall_mem_singleton.mpr unknown⟩⟩
  | nullable inner induction =>
      exact List.forall_mem_append.mpr
        ⟨induction, List.forall_mem_singleton.mpr (isOf_nullSense _)⟩

theorem isOf_fieldSenses (options : EmitOptions) (field : Field) :
    ∀ sense ∈ fieldSenses options field, sense.IsOf IsBuiltIn field.type.names :=
  isOf_orNullSense _ (isOf_typeSenses field.type)

theorem isOf_literalSenses (names : List String) (value : Literal) :
    ∀ sense ∈ literalSenses value, sense.IsOf IsBuiltIn names := by
  have yes : IsBuiltIn "true".toList := by decide
  have no : IsBuiltIn "false".toList := by decide
  cases value with
  | string | number => nofun
  | boolean value =>
      cases value with
      | true => exact List.forall_mem_singleton.mpr yes
      | false => exact List.forall_mem_singleton.mpr no
  | null => exact List.forall_mem_singleton.mpr (isOf_nullSense names)

theorem isOf_senses (options : EmitOptions) (source : Schemata.Declaration) :
    ∀ sense ∈ senses options source, sense.IsOf IsBuiltIn source.definition.names := by
  have written : ∀ sense ∈ (writtenTypes source.definition).flatMap typeSenses,
      sense.IsOf IsBuiltIn source.definition.names := by
    intro sense member
    obtain ⟨type, among, inside⟩ := List.mem_flatMap.mp member
    refine (isOf_typeSenses type sense inside).mono fun name mentioned => ?_
    exact names_writtenTypes _ (List.mem_flatMap.mpr ⟨type, among, mentioned⟩)
  unfold senses
  cases shape : source.definition with
  | object fields =>
      apply isOf_orNullSense
      intro sense member
      obtain ⟨field, among, inside⟩ := List.mem_flatMap.mp member
      refine (isOf_fieldSenses options field sense inside).mono fun name mentioned => ?_
      exact List.mem_flatMap.mpr ⟨field.type, List.mem_map_of_mem among, mentioned⟩
  | enum values =>
      dsimp only
      split
      · nofun
      · apply isOf_orNullSense
        intro sense member
        obtain ⟨value, -, inside⟩ := List.mem_flatMap.mp member
        exact isOf_literalSenses _ value sense inside
  | primitive | array | map | untypedMap | union | reference =>
      rw [shape] at written
      exact isOf_orNullSense _ written

/-! Files. -/

/-- The names that a file declares. -/
def scope (options : EmitOptions) (model : Model) : List (List Char) :=
  (model.declarations.map (Declaration.ofModel options)).map (·.name.toList)

def allSenses (options : EmitOptions) (model : Model) : List (List Sense) :=
  model.declarations.map (senses options)

/-- Every word of a type stands for what it is meant to stand for. -/
def Hygienic (options : EmitOptions) (model : Model) : Prop :=
  Sense.ReadAs (scope options model)
    ((model.declarations.map (Declaration.ofModel options)).map (·.words))
    (allSenses options model)

theorem scope_eq (options : EmitOptions) (model : Model) :
    scope options model = model.declarations.map (·.name.toList) :=
  List.map_map

theorem not_mem_scope_of_startsApart {forest : Forest} {model : Model}
    (options : EmitOptions) (succeeds : forest.resolve = .ok model) {word : List Char}
    (apart : StartsApart word) : word ∉ scope options model := by
  rw [scope_eq]
  intro declares
  obtain ⟨source, member, rfl⟩ := List.mem_map.mp declares
  exact not_operand_of_startsApart (isTypeName_of_resolve succeeds source member) apart
    .whole

theorem hygienic_iff {forest : Forest} {model : Model} (options : EmitOptions)
    (succeeds : forest.resolve = .ok model) :
    Hygienic options model ↔
      ∀ word ∈ builtIns, Sense.Calls (allSenses options model) word →
        word ∉ scope options model := by
  have spelled : (model.declarations.map (Declaration.ofModel options)).map (·.words) =
      (allSenses options model).map (List.map Sense.word) := by
    rw [allSenses, List.map_map, List.map_map]
    exact List.map_congr_left fun source member =>
      words_ofModel options (isTypeName_of_mentioned succeeds source member)
  rw [Hygienic, spelled]
  exact Sense.readAs_iff_of_resolve succeeds (isOf_senses options) (scope_eq options model)
    fun _ known => known.imp_right (not_mem_scope_of_startsApart options succeeds)

end Schemata.TypeScript
