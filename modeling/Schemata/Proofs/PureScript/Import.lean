import Schemata.Proofs.PureScript.Constructor
import Schemata.Proofs.PureScript.TypeWord
import Schemata.PureScript.Module

namespace Schemata.PureScript

/-! Imports agree with what is printed: a type is imported exactly if its word stands where a
type stands. -/

/-- The texts of a body that stand where a type stands. -/
def Body.typeTexts : Body → List (List Char)
  | newtype nullable fields => recordOpening nullable :: fields.map (·.type)
  | data constructors => constructors.filterMap (·.argument)
  | synonym type => [type]

/-- The right-hand side of a synonym for a type. -/
def synonymText (nullable : Bool) (type : TypeRef) : List Char :=
  if nullable then nullableText (typeText type) else typeText type

namespace ImportedType

def word : ImportedType → List Char
  | maybe => "Maybe".toList
  | nullable => "Nullable".toList
  | foreign => "Foreign".toList
  | object => "Object".toList
  | blob => "Blob".toList

theorem word_injective : Function.Injective word := by
  intro left right
  cases left <;> cases right <;> decide

theorem mem_all (imported : ImportedType) : imported ∈ all := by
  cases imported <;> decide

theorem isTypeWord_word (imported : ImportedType) : IsTypeWord imported.word := by
  cases imported <;> decide

/-- A text with the word of the type among its words. -/
def OccursIn (imported : ImportedType) (text : List Char) : Prop :=
  imported.word ∈ typeWords text

instance (imported : ImportedType) (text : List Char) :
    Decidable (imported.OccursIn text) :=
  inferInstanceAs (Decidable (_ ∈ _))

/-- None of the names holds the word of the type. -/
def AbsentFrom (imported : ImportedType) (names : List String) : Prop :=
  ∀ name ∈ names, ¬ imported.OccursIn name.toList

instance (imported : ImportedType) (names : List String) :
    Decidable (imported.AbsentFrom names) :=
  inferInstanceAs (Decidable (∀ _ ∈ _, _))

variable {imported : ImportedType} {options : EmitOptions} {type : List Char}

theorem occursIn_argument :
    imported.OccursIn (argument type) ↔ imported.OccursIn type := by
  simp only [OccursIn, typeWords_argument]

theorem occursIn_applied (constructor : ImportedType) :
    imported.OccursIn (applied constructor.word type) ↔
      imported = constructor ∨ imported.OccursIn type := by
  simp only [OccursIn, typeWords_applied constructor.isTypeWord_word, List.mem_cons,
    word_injective.eq_iff]

theorem occursIn_array :
    imported.OccursIn (applied "Array".toList type) ↔ imported.OccursIn type := by
  have other : imported.word ≠ "Array".toList := by
    cases imported <;> decide
  have word : IsTypeWord "Array".toList := by decide
  simp only [OccursIn, typeWords_applied word, List.mem_cons, other, false_or]

theorem occursIn_nullableText :
    imported.OccursIn (nullableText type) ↔
      imported = .nullable ∨ imported.OccursIn type :=
  occursIn_applied .nullable

theorem occursIn_maybeText :
    imported.OccursIn (maybeText type) ↔ imported = .maybe ∨ imported.OccursIn type :=
  occursIn_applied .maybe

/-! What is imported for a type, a field and a definition. -/

theorem mem_ofPrimitive {kind : Primitive} :
    imported ∈ ofPrimitive kind ↔ imported.OccursIn (primitiveText kind) := by
  rw [OccursIn, typeWords_primitiveText]
  cases imported <;> cases kind <;> decide

theorem mem_ofType {type : TypeRef} (absent : imported.AbsentFrom type.names) :
    imported ∈ ofType type ↔ imported.OccursIn (typeText type) := by
  induction type with
  | primitive kind => exact mem_ofPrimitive
  | named name =>
      have other := absent name List.mem_cons_self
      exact ⟨nofun, fun occurs => absurd occurs other⟩
  | array element induction =>
      rw [ofType, typeText, occursIn_array, induction absent]
  | map values induction =>
      rw [ofType, typeText, List.mem_cons, induction absent]
      exact (occursIn_applied .object).symm
  | untypedMap =>
      rw [OccursIn]
      cases imported <;> decide
  | nullable inner induction =>
      rw [ofType, typeText, occursIn_nullableText, List.mem_cons, induction absent]

theorem mem_ofField {field : Field} (absent : imported.AbsentFrom field.type.names) :
    imported ∈ ofField options field ↔
      imported.OccursIn (fieldType options field) := by
  rw [ofField, List.mem_append, mem_ofType absent, or_comm]
  cases style : options.nullStyle with
  | optionalField =>
      simp only [fieldType, style]
      split
      · rw [occursIn_maybeText, List.mem_singleton]
      · simp
  | unionWithNull =>
      simp only [fieldType, style]
      cases field.required <;> cases field.nullable <;>
        simp [occursIn_maybeText, occursIn_nullableText, or_assoc]

theorem occursIn_recordOpening {nullable : Bool} :
    imported.OccursIn (recordOpening nullable) ↔
      nullable = true ∧ imported = .nullable := by
  rw [OccursIn]
  cases nullable <;> cases imported <;> decide

/-- The import of the type constructor for nulls, where a declaration is nullable. -/
theorem mem_ifNullable {nullable : Bool} :
    imported ∈ (if nullable then [ImportedType.nullable] else []) ↔
      nullable = true ∧ imported = .nullable := by
  cases nullable <;> simp

theorem occursIn_synonymText {nullable : Bool} {type : TypeRef} :
    imported.OccursIn (synonymText nullable type) ↔
      imported.OccursIn (typeText type) ∨ nullable = true ∧ imported = .nullable := by
  cases nullable <;> simp [synonymText, occursIn_nullableText, or_comm]

theorem AbsentFrom.types {definition : Definition}
    (absent : imported.AbsentFrom definition.names) {type : TypeRef}
    (member : type ∈ definition.types) : imported.AbsentFrom type.names :=
  fun name mentioned => absent name (List.mem_flatMap.mpr ⟨type, member, mentioned⟩)

end ImportedType

/-! The texts in a printed declaration. -/

theorem map_type_recordFields (options : EmitOptions) (fields : List Field) :
    (recordFields options fields).map (·.type) = fields.map (fieldType options) := by
  have lengths : (Label.ofNames (fields.map (·.name))).length = fields.length := by
    rw [Label.ofNames, Label.length_ofNamesFrom, List.length_map]
  apply List.ext_getElem
  · simp [recordFields, lengths]
  · intro index _ _
    simp [recordFields]

theorem filterMap_argument {α : Type} {items : List α}
    {constructors : List DataConstructor} {carried : α → Option (List Char)}
    (each : List.Forall₂ (fun item constructor => constructor.argument = carried item)
      items constructors) :
    constructors.filterMap (·.argument) = items.filterMap carried := by
  induction each with
  | nil => rfl
  | cons first _ induction =>
      rw [List.filterMap_cons, List.filterMap_cons, first, induction]

namespace Declaration

theorem OfNull.filterMap_argument {owner : String} {due : Prop}
    {null : List DataConstructor} (last : OfNull owner due null) :
    null.filterMap (·.argument) = [] := by
  cases last with
  | absent => rfl
  | present => rfl

/-- Every declaration of a module is printed from one of the model. -/
theorem exists_mem_ofModelFrom (options : EmitOptions) (constructors : Constructors)
    {sources : List Schemata.Declaration} {holds : Schemata.Declaration → Prop}
    {shows : Declaration → Prop}
    (same : ∀ source ∈ sources, ∀ constructors,
      holds source ↔ shows (ofSource options constructors source)) :
    (∃ source ∈ sources, holds source) ↔
      ∃ printed ∈ ofModelFrom options constructors sources, shows printed := by
  induction sources generalizing constructors with
  | nil => simp [ofModelFrom]
  | cons source rest induction =>
      obtain ⟨here, later⟩ := List.forall_mem_cons.mp same
      rw [ofModelFrom_cons, List.exists_mem_cons_iff, List.exists_mem_cons_iff,
        here constructors, induction _ later]

variable (options : EmitOptions) (constructors : Constructors)
  {source : Schemata.Declaration}

theorem typeTexts_of_object {fields : List Field}
    (shape : source.definition = .object fields) :
    (ofSource options constructors source).body.typeTexts =
      recordOpening source.nullable :: fields.map (fieldType options) := by
  simp only [ofSource, shape, bodyOf, Body.typeTexts, map_type_recordFields]

theorem typeTexts_of_enum {values : List Literal}
    (shape : source.definition = .enum values) :
    (ofSource options constructors source).body.typeTexts = [] := by
  have spells := spells_ofSource options constructors source
  simp only [Spells, shape] at spells
  obtain ⟨-, own, null, body, each, last⟩ := spells
  have nothing := filterMap_argument (each.imp fun _ _ printed => printed.2)
  rw [body, Body.typeTexts, List.filterMap_append, last.filterMap_argument, nothing]
  simp

theorem typeTexts_of_union {variants : List TypeRef}
    (shape : source.definition = .union variants) :
    (ofSource options constructors source).body.typeTexts =
      variants.map fun variant => argument (typeText variant) := by
  have spells := spells_ofSource options constructors source
  simp only [Spells, shape] at spells
  obtain ⟨-, own, null, body, each, last⟩ := spells
  have carried := filterMap_argument (each.imp fun _ _ printed => printed.2)
  rw [body, Body.typeTexts, List.filterMap_append, last.filterMap_argument, carried]
  simp

end Declaration

/-- The type that a declaration gives another name to, if that is all it does. -/
def aliased? : Definition → Option TypeRef
  | .primitive kind => some (.primitive kind)
  | .array element => some (.array element)
  | .map values => some (.map values)
  | .untypedMap => some .untypedMap
  | .reference target => some target
  | .enum _ | .object _ | .union _ => none

theorem body_of_aliased (options : EmitOptions) (constructors : Constructors)
    {source : Schemata.Declaration} {type : TypeRef}
    (renames : aliased? source.definition = some type) :
    (Declaration.ofSource options constructors source).body =
      .synonym (synonymText source.nullable type) := by
  cases shape : source.definition <;> rw [shape] at renames <;> cases renames <;>
    simp only [Declaration.ofSource, shape, bodyOf, typeText, synonymText]

theorem names_of_aliased {definition : Definition} {type : TypeRef}
    (renames : aliased? definition = some type) : definition.names = type.names := by
  cases definition <;> cases renames <;>
    simp [Definition.names, Definition.types, TypeRef.names]

theorem ofDeclaration_of_aliased (options : EmitOptions)
    {source : Schemata.Declaration} {type : TypeRef}
    (renames : aliased? source.definition = some type) :
    ImportedType.ofDeclaration options source =
      ImportedType.ofType type ++ if source.nullable then [.nullable] else [] := by
  cases shape : source.definition <;> rw [shape] at renames <;> cases renames <;>
    simp only [ImportedType.ofDeclaration, shape, ImportedType.ofType,
      List.cons_append]

namespace ImportedType

/-- What is imported for a declaration is what its printed types call for. -/
theorem mem_ofDeclaration {imported : ImportedType} {source : Schemata.Declaration}
    (options : EmitOptions) (constructors : Constructors)
    (absent : imported.AbsentFrom source.definition.names) :
    imported ∈ ofDeclaration options source ↔
      ∃ text ∈ (Declaration.ofSource options constructors source).body.typeTexts,
        imported.OccursIn text := by
  cases shape : source.definition with
  | object fields =>
      rw [shape] at absent
      rw [Declaration.typeTexts_of_object options constructors shape]
      simp only [ofDeclaration, shape, List.mem_append, List.mem_flatMap,
        mem_ifNullable, List.exists_mem_cons_iff, List.mem_map,
        exists_exists_and_eq_and, occursIn_recordOpening]
      rw [or_comm]
      refine or_congr_right (exists_congr fun field => and_congr_right fun member => ?_)
      exact mem_ofField (absent.types (List.mem_map.mpr ⟨field, member, rfl⟩))
  | enum values =>
      rw [Declaration.typeTexts_of_enum options constructors shape]
      simp [ofDeclaration, shape]
  | union variants =>
      rw [shape] at absent
      rw [Declaration.typeTexts_of_union options constructors shape]
      simp only [ofDeclaration, shape, List.mem_flatMap, List.mem_map,
        exists_exists_and_eq_and, occursIn_argument]
      refine exists_congr fun variant => and_congr_right fun member => ?_
      exact mem_ofType (absent.types member)
  | primitive | array | map | untypedMap | reference =>
      obtain ⟨type, renames⟩ : ∃ type, aliased? source.definition = some type := by
        rw [shape]
        exact ⟨_, rfl⟩
      have inside : imported.AbsentFrom type.names := names_of_aliased renames ▸ absent
      rw [ofDeclaration_of_aliased options renames,
        body_of_aliased options constructors renames, Body.typeTexts, List.mem_append,
        mem_ifNullable, mem_ofType inside]
      simp only [List.mem_singleton, exists_eq_left, occursIn_synonymText]

end ImportedType

/-! The imports of a module. -/

/-- What holds of the imports of a module. -/
structure ImportsAgree (options : EmitOptions) (model : Model) : Prop where
  /-- A type has its import line exactly if a declaration is printed with its word where
  a type stands. -/
  imported_iff : ∀ imported : ImportedType,
    imported.importLine ∈ importLines options model ↔
      ∃ printed ∈ Declaration.ofModel options model,
        ∃ text ∈ printed.body.typeTexts, imported.OccursIn text
  known : ∀ line ∈ importLines options model,
    ∃ imported : ImportedType, imported.importLine = line
  distinct : (importLines options model).Nodup

theorem importLine_injective : Function.Injective ImportedType.importLine := by
  intro left right
  cases left <;> cases right <;> decide

theorem importLine_mem_iff {options : EmitOptions} {model : Model}
    {imported : ImportedType} :
    imported.importLine ∈ importLines options model ↔
      ∃ source ∈ model.declarations,
        imported ∈ ImportedType.ofDeclaration options source := by
  simp only [importLines, List.mem_map_of_injective importLine_injective,
    List.mem_filter, imported.mem_all, true_and, decide_eq_true_eq, List.mem_flatMap]

/-- In a model that mentions no type with one of the words in its name, a type is imported
exactly if it is used. In a resolved model it is enough that no declaration has one of them
for its name. -/
theorem imports_agree (options : EmitOptions) :
    (∀ model : Model,
      (∀ source ∈ model.declarations, ∀ imported : ImportedType,
        imported.AbsentFrom source.definition.names) →
      ImportsAgree options model) ∧
    ∀ (forest : Forest) (model : Model), forest.resolve = .ok model →
      (∀ source ∈ model.declarations, ∀ imported : ImportedType,
        source.name.toList ≠ imported.word) →
      ImportsAgree options model := by
  have agree : ∀ model : Model,
      (∀ source ∈ model.declarations, ∀ imported : ImportedType,
        imported.AbsentFrom source.definition.names) →
      ImportsAgree options model := by
    intro model absent
    constructor
    · intro imported
      rw [importLine_mem_iff]
      exact Declaration.exists_mem_ofModelFrom options _ fun source member constructors =>
        ImportedType.mem_ofDeclaration options constructors (absent source member imported)
    · intro line member
      obtain ⟨imported, -, same⟩ := List.mem_map.mp member
      exact ⟨imported, same⟩
    · refine List.Nodup.map importLine_injective (List.Nodup.filter _ ?_)
      decide
  refine ⟨agree, fun forest model succeeds unnamed => agree model ?_⟩
  intro source member imported name mentioned occurs
  obtain ⟨target, declared, rfl⟩ :=
    declared_of_mentioned succeeds source member name mentioned
  have word := isTypeWord_of_isTypeName (isTypeName_of_resolve succeeds target declared)
  rw [ImportedType.OccursIn, typeWords, Text.wordsBetween_word word, List.mem_singleton] at occurs
  exact unnamed target declared imported occurs.symm

/-- A cabin that may be missing, with a key that need not be there. -/
def cabin : Model where
  declarations :=
    [⟨"Key", .reference (.primitive .binary), false, .empty, .root⟩,
      ⟨"Cabin", .object
        [⟨"key", .named "Key", false, false, .empty⟩,
          ⟨"rooms", .map (.named "Cabin"), true, false, .empty⟩],
        true, .empty, .root⟩]
  distinct := by decide

theorem imports_agree_cabin :
    ImportsAgree .standard cabin ∧
      (∃ model, Forest.shelter.resolve = .ok model ∧ ImportsAgree .standard model) ∧
      importLines .standard cabin = [ImportedType.maybe, .nullable, .object, .blob].map
        (·.importLine) := by
  refine ⟨(imports_agree .standard).1 cabin ?_, ?_, by decide⟩
  · have absent : ∀ source ∈ cabin.declarations, ∀ imported ∈ ImportedType.all,
        imported.AbsentFrom source.definition.names := by
      decide
    exact fun source member imported => absent source member imported imported.mem_all
  · obtain ⟨model, succeeds, names⟩ := Forest.resolve_shelter
    have unnamed : ∀ name ∈ model.declarations.map (·.name),
        ∀ imported ∈ ImportedType.all, name.toList ≠ imported.word := by
      rw [names]
      decide
    refine ⟨model, succeeds, (imports_agree .standard).2 _ model succeeds ?_⟩
    intro source member imported
    exact unnamed _ (List.mem_map.mpr ⟨source, member, rfl⟩) imported imported.mem_all

end Schemata.PureScript
