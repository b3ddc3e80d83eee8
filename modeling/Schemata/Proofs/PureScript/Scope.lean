import Schemata.Proofs.Emission.Scope
import Schemata.Proofs.PureScript.Synonym

namespace Schemata.PureScript

/-! What the types of a module are meant to be, word by word, against what is printed. -/

def Declaration.words (printed : Declaration) : List (List Char) :=
  printed.body.typeTexts.flatMap typeWords

/-! What is meant. -/

def typeSenses : TypeRef → List Sense
  | .primitive kind => [.builtIn (primitiveText kind)]
  | .named name => [.declared name.toList]
  | .array element => .builtIn "Array".toList :: typeSenses element
  | .map values => .builtIn "Object".toList :: typeSenses values
  | .untypedMap => [.builtIn "Object".toList, .builtIn "Foreign".toList]
  | .nullable inner => .builtIn "Nullable".toList :: typeSenses inner

def orMissing (missing : Bool) (meant : List Sense) : List Sense :=
  if missing then .builtIn "Maybe".toList :: meant else meant

def orNull (nullable : Bool) (meant : List Sense) : List Sense :=
  if nullable then .builtIn "Nullable".toList :: meant else meant

def fieldSenses (options : EmitOptions) (field : Field) : List Sense :=
  match options.nullStyle with
  | .optionalField =>
      orMissing (!field.required || field.nullable) (typeSenses field.type)
  | .unionWithNull =>
      orMissing (!field.required) (orNull field.nullable (typeSenses field.type))

def senses (options : EmitOptions) (source : Schemata.Declaration) : List Sense :=
  match source.definition with
  | .object fields => orNull source.nullable (fields.flatMap (fieldSenses options))
  | .union variants => variants.flatMap typeSenses
  | definition =>
      match aliased? definition with
      | some type => orNull source.nullable (typeSenses type)
      | none => []

theorem senses_of_aliased (options : EmitOptions) {source : Schemata.Declaration}
    {type : TypeRef} (renames : aliased? source.definition = some type) :
    senses options source = orNull source.nullable (typeSenses type) := by
  cases shape : source.definition <;> rw [shape] at renames <;> cases renames <;>
    simp only [senses, shape, aliased?]

/-! What is printed has the words of what is meant. -/

theorem typeWords_named {type : TypeRef} (named : ∀ name ∈ type.names, IsTypeName name) :
    typeWords (typeText type) = (typeSenses type).map Sense.word := by
  rw [typeWords_typeText]
  induction type with
  | primitive | untypedMap => rfl
  | named name =>
      exact Text.wordsBetween_word (isTypeWord_of_isTypeName (named name List.mem_cons_self))
  | array _ induction | map _ induction | nullable _ induction =>
      rw [wordsOf, induction named, typeSenses, List.map_cons]
      rfl

theorem typeWords_orNull (nullable : Bool) {text : List Char} {meant : List Sense}
    (spelled : typeWords text = meant.map Sense.word) :
    typeWords (if nullable then nullableText text else text) =
      (orNull nullable meant).map Sense.word := by
  cases nullable with
  | false => exact spelled
  | true =>
      rw [if_pos rfl, typeWords_nullableText, spelled]
      rfl

theorem typeWords_orMissing (missing : Bool) {text : List Char} {meant : List Sense}
    (spelled : typeWords text = meant.map Sense.word) :
    typeWords (if missing then maybeText text else text) =
      (orMissing missing meant).map Sense.word := by
  cases missing with
  | false => exact spelled
  | true =>
      rw [if_pos rfl, typeWords_maybeText, spelled]
      rfl

theorem typeWords_fieldType (options : EmitOptions) {field : Field}
    (named : ∀ name ∈ field.type.names, IsTypeName name) :
    typeWords (fieldType options field) = (fieldSenses options field).map Sense.word := by
  have type := typeWords_named named
  unfold fieldType fieldSenses
  cases options.nullStyle with
  | optionalField => exact typeWords_orMissing _ type
  | unionWithNull =>
      have inner := typeWords_orNull field.nullable type
      cases field.required with
      | true => exact inner
      | false => exact typeWords_orMissing true inner

theorem words_ofSource (options : EmitOptions) (constructors : Constructors)
    {source : Schemata.Declaration}
    (named : ∀ name ∈ source.definition.names, IsTypeName name) :
    (Declaration.ofSource options constructors source).words =
      (senses options source).map Sense.word := by
  have types : ∀ type ∈ source.definition.types, ∀ name ∈ type.names, IsTypeName name :=
    fun type member name mentioned =>
      named name (List.mem_flatMap.mpr ⟨type, member, mentioned⟩)
  cases shape : source.definition with
  | object fields =>
      rw [shape] at types
      rw [Declaration.words, Declaration.typeTexts_of_object options constructors shape,
        List.flatMap_cons, Sense.words_of_each fun field member => typeWords_fieldType options
          (types field.type (List.mem_map_of_mem member))]
      simp only [senses, shape]
      cases source.nullable with
      | false => rfl
      | true => rfl
  | union variants =>
      rw [shape] at types
      rw [Declaration.words, Declaration.typeTexts_of_union options constructors shape]
      simp only [senses, shape]
      refine Sense.words_of_each fun variant member => ?_
      rw [typeWords_argument]
      exact typeWords_named (types variant member)
  | enum values =>
      rw [Declaration.words, Declaration.typeTexts_of_enum options constructors shape]
      simp only [senses, shape]
      rfl
  | primitive | array | map | untypedMap | reference =>
      obtain ⟨type, renames⟩ : ∃ type, aliased? source.definition = some type := by
        rw [shape]
        exact ⟨_, rfl⟩
      have names := names_of_aliased renames
      rw [names] at named
      rw [Declaration.words, body_of_aliased options constructors renames, Body.typeTexts,
        List.flatMap_singleton, senses_of_aliased options renames]
      exact typeWords_orNull source.nullable (typeWords_named named)

theorem words_ofModelFrom (options : EmitOptions) (constructors : Constructors)
    {sources : List Schemata.Declaration}
    (named : ∀ source ∈ sources, ∀ name ∈ source.definition.names, IsTypeName name) :
    (Declaration.ofModelFrom options constructors sources).map (·.words) =
      (sources.map (senses options)).map (List.map Sense.word) := by
  induction sources generalizing constructors with
  | nil => rfl
  | cons source rest induction =>
      obtain ⟨here, later⟩ := List.forall_mem_cons.mp named
      rw [Declaration.ofModelFrom_cons, List.map_cons, List.map_cons, List.map_cons,
        words_ofSource options constructors here, induction _ later]

/-! What can be meant. -/

/-- All words that types are written with besides the names of declarations. -/
def allBuiltIns : List (List Char) :=
  "Maybe".toList :: builtIns

def IsBuiltIn (word : List Char) : Prop :=
  word ∈ allBuiltIns

instance (word : List Char) : Decidable (IsBuiltIn word) :=
  inferInstanceAs (Decidable (_ ∈ _))

theorem isOf_builtIn {word : List Char} (known : IsBuiltIn word) (names : List String) :
    (Sense.builtIn word).IsOf IsBuiltIn names :=
  known

theorem isOf_orNull {names : List String} {meant : List Sense} (nullable : Bool)
    (each : ∀ sense ∈ meant, sense.IsOf IsBuiltIn names) :
    ∀ sense ∈ orNull nullable meant, sense.IsOf IsBuiltIn names := by
  cases nullable with
  | false => exact each
  | true => exact List.forall_mem_cons.mpr ⟨isOf_builtIn (by decide) names, each⟩

theorem isOf_orMissing {names : List String} {meant : List Sense} (missing : Bool)
    (each : ∀ sense ∈ meant, sense.IsOf IsBuiltIn names) :
    ∀ sense ∈ orMissing missing meant, sense.IsOf IsBuiltIn names := by
  cases missing with
  | false => exact each
  | true => exact List.forall_mem_cons.mpr ⟨isOf_builtIn (by decide) names, each⟩

theorem isOf_typeSenses (type : TypeRef) :
    ∀ sense ∈ typeSenses type, sense.IsOf IsBuiltIn type.names := by
  induction type with
  | primitive kind =>
      have known : IsBuiltIn (primitiveText kind) := by
        cases kind <;> decide
      exact List.forall_mem_singleton.mpr known
  | named name => exact List.forall_mem_singleton.mpr ⟨name, List.mem_cons_self, rfl⟩
  | array _ induction | map _ induction | nullable _ induction =>
      exact List.forall_mem_cons.mpr ⟨isOf_builtIn (by decide) _, induction⟩
  | untypedMap =>
      exact List.forall_mem_cons.mpr ⟨isOf_builtIn (by decide) _,
        List.forall_mem_singleton.mpr (isOf_builtIn (by decide) _)⟩

theorem isOf_fieldSenses (options : EmitOptions) (field : Field) :
    ∀ sense ∈ fieldSenses options field, sense.IsOf IsBuiltIn field.type.names := by
  have type := isOf_typeSenses field.type
  unfold fieldSenses
  cases options.nullStyle with
  | optionalField => exact isOf_orMissing _ type
  | unionWithNull => exact isOf_orMissing _ (isOf_orNull _ type)

theorem isOf_senses (options : EmitOptions) (source : Schemata.Declaration) :
    ∀ sense ∈ senses options source, sense.IsOf IsBuiltIn source.definition.names := by
  cases shape : source.definition with
  | object fields =>
      simp only [senses, shape]
      apply isOf_orNull
      intro sense member
      obtain ⟨field, among, inside⟩ := List.mem_flatMap.mp member
      refine (isOf_fieldSenses options field sense inside).mono fun name mentioned => ?_
      exact List.mem_flatMap.mpr ⟨field.type, List.mem_map_of_mem among, mentioned⟩
  | union variants =>
      simp only [senses, shape]
      intro sense member
      obtain ⟨variant, among, inside⟩ := List.mem_flatMap.mp member
      refine (isOf_typeSenses variant sense inside).mono fun name mentioned => ?_
      exact List.mem_flatMap.mpr ⟨variant, among, mentioned⟩
  | enum values =>
      simp only [senses, shape]
      nofun
  | primitive | array | map | untypedMap | reference =>
      obtain ⟨type, renames⟩ : ∃ type, aliased? source.definition = some type := by
        rw [shape]
        exact ⟨_, rfl⟩
      rw [senses_of_aliased options renames, ← shape, names_of_aliased renames]
      exact isOf_orNull _ (isOf_typeSenses type)

/-! Modules. -/

/-- The types that a module declares. -/
def scope (options : EmitOptions) (model : Model) : List (List Char) :=
  (Declaration.ofModel options model).map (·.name.toList)

def allSenses (options : EmitOptions) (model : Model) : List (List Sense) :=
  model.declarations.map (senses options)

/-- Every word of a type stands for what it is meant to stand for. -/
def Hygienic (options : EmitOptions) (model : Model) : Prop :=
  Sense.ReadAs (scope options model)
    ((Declaration.ofModel options model).map (·.words)) (allSenses options model)

theorem scope_eq (options : EmitOptions) (model : Model) :
    scope options model = model.declarations.map (·.name.toList) := by
  have each : ∀ constructors sources,
      (Declaration.ofModelFrom options constructors sources).map (·.name.toList) =
        sources.map (·.name.toList) := by
    intro constructors sources
    induction sources generalizing constructors with
    | nil => rfl
    | cons source rest induction =>
        rw [Declaration.ofModelFrom_cons, List.map_cons, List.map_cons, induction]
        rfl
  exact each _ _

theorem hygienic_iff {forest : Forest} {model : Model} (options : EmitOptions)
    (succeeds : forest.resolve = .ok model) :
    Hygienic options model ↔
      ∀ word ∈ allBuiltIns, Sense.Calls (allSenses options model) word →
        word ∉ scope options model := by
  have spelled : (Declaration.ofModel options model).map (·.words) =
      (allSenses options model).map (List.map Sense.word) :=
    words_ofModelFrom options _ fun _ member => isTypeName_of_mentioned succeeds _ member
  rw [Hygienic, spelled]
  exact Sense.readAs_iff_of_resolve succeeds (isOf_senses options)
    (scope_eq options model) fun _ => .inl

end Schemata.PureScript
