import Schemata.Proofs.Naming.TypeName
import Schemata.Proofs.Text.PascalCase
import Schemata.Proofs.WellShaped

namespace Schemata

/-! Names of types as identifiers. Where the names in a document have no letters and numbers
but those of ASCII, the names made from them are of ASCII too, and such a type name is an
identifier in every target language. -/

namespace Text

/-- All letters and numbers are of ASCII. Other characters may be of any kind. -/
def IsPlainText (text : List Char) : Prop :=
  ∀ char ∈ text, isAlphanumeric char = true → char.toNat < 128

instance (text : List Char) : Decidable (IsPlainText text) :=
  List.decidableBAll _ text

theorem IsAsciiText.isPlainText {text : List Char} (ascii : IsAsciiText text) :
    IsPlainText text :=
  fun char member _ => ascii char member

theorem isAsciiText_append {left right : List Char} :
    IsAsciiText (left ++ right) ↔ IsAsciiText left ∧ IsAsciiText right :=
  List.forall_mem_append

/-- The words of a plain name are its own letters and numbers, unless it has none. -/
theorem ascii_words {name word : List Char} (plain : IsPlainText name)
    (member : word ∈ words name) : IsAsciiText word := by
  unfold words at member
  split at member
  · obtain rfl := List.mem_singleton.mp member
    decide
  · next pieces _ =>
    obtain ⟨piece, among, inside⟩ := List.mem_flatMap.mp member
    obtain ⟨nonempty, letters⟩ := alphanumeric_of_mem_stretches among
    intro char own
    have whole := flatten_splitByCase .undetermined [] piece nonempty
    rw [List.reverse_nil, List.nil_append] at whole
    have held : char ∈ piece := whole ▸ List.mem_flatten_of_mem inside own
    have text := subset_of_mem_splitWhere (List.mem_filter.mp among).1 held
    exact plain char text (letters char held)

theorem ascii_lowercase {char : Char} (ascii : char.toNat < 128) :
    IsAsciiText (lowercase char) :=
  forall_ascii (fun char => IsAsciiText (lowercase char)) (by decide +kernel) ascii

theorem ascii_uppercase {char : Char} (ascii : char.toNat < 128) :
    IsAsciiText (uppercase char) :=
  forall_ascii (fun char => IsAsciiText (uppercase char)) (by decide +kernel) ascii

theorem ascii_lowered {word : List Char} (ascii : IsAsciiText word) :
    IsAsciiText (lowered word) := by
  induction word using lowered.induct with
  | case1 => exact List.forall_mem_nil _
  | case2 => exact absurd (ascii 'Σ' List.mem_cons_self) (by decide)
  | case3 char rest other induction =>
      obtain ⟨here, later⟩ := List.forall_mem_cons.mp ascii
      rw [lowered.eq_3 char rest other]
      exact isAsciiText_append.mpr ⟨ascii_lowercase here, induction later⟩

theorem ascii_capitalized {word : List Char} (ascii : IsAsciiText word) :
    IsAsciiText (capitalized word) := by
  cases word with
  | nil => nofun
  | cons char rest =>
      obtain ⟨here, later⟩ := List.forall_mem_cons.mp ascii
      exact isAsciiText_append.mpr ⟨ascii_uppercase here, ascii_lowered later⟩

theorem ascii_pascalCase {name : String} (plain : IsPlainText name.toList) :
    IsAsciiText (pascalCase name).toList := by
  rw [pascalCase, String.toList_ofList]
  intro char member
  obtain ⟨word, among, inside⟩ := List.mem_flatMap.mp member
  exact ascii_capitalized (ascii_words plain among) char inside

theorem ascii_naturalText (number : Nat) : IsAsciiText (naturalText number) := by
  intro char member
  exact ascii_of_isDigit (Nat.isDigit_of_mem_toDigits (by decide) (by decide) member)

end Text

/-- A capital of ASCII, followed by letters and digits of ASCII. -/
def IsIdentifier (name : String) : Prop :=
  ∃ first rest, name.toList = first :: rest ∧ first.isUpper = true ∧
    ∀ char ∈ rest, char.isAlphanum = true

theorem IsTypeName.isIdentifier {name : String} (named : IsTypeName name)
    (ascii : Text.IsAsciiText name.toList) : IsIdentifier name := by
  obtain ⟨first, rest, split⟩ := List.exists_cons_of_ne_nil named.nonempty
  have initial := named.initial
  have letters := named.letters
  rw [split] at ascii initial letters
  obtain ⟨here, later⟩ := List.forall_mem_cons.mp ascii
  refine ⟨first, rest, split, initial first rfl here, fun char member => ?_⟩
  exact letters char (List.mem_cons_of_mem _ member) (later char member)

/-! Names made from names of ASCII. -/

def IsAsciiName (name : String) : Prop :=
  Text.IsAsciiText name.toList

instance (name : String) : Decidable (IsAsciiName name) :=
  inferInstanceAs (Decidable (Text.IsAsciiText _))

theorem IsAsciiName.append {left right : String} (first : IsAsciiName left)
    (second : IsAsciiName right) : IsAsciiName (left ++ right) := by
  rw [IsAsciiName, String.toList_append]
  exact Text.isAsciiText_append.mpr ⟨first, second⟩

theorem isAsciiName_naturalText (number : Nat) :
    IsAsciiName (String.ofList (naturalText number)) := by
  rw [IsAsciiName, String.toList_ofList]
  exact Text.ascii_naturalText number

theorem isAsciiName_typeName {context : String} (plain : Text.IsPlainText context.toList) :
    IsAsciiName (typeName context) := by
  have cased : IsAsciiName (Text.pascalCase context) := Text.ascii_pascalCase plain
  have letter : IsAsciiName "T" := by decide
  unfold typeName
  dsimp only
  split
  · exact letter.append cased
  · exact cased

theorem IsAsciiName.of_isNumbered {base name : String} (ascii : IsAsciiName base)
    (numbered : IsNumbered base name) : IsAsciiName name := by
  rcases numbered with rfl | ⟨number, -, -, rfl⟩
  · exact ascii
  · exact ascii.append (isAsciiName_naturalText number)

/-! The ways from declarations to the shapes in them. -/

/-- The properties of all objects among the schemas have plain names. -/
def Schema.PlainAmong (schemas : List Schema) : Prop :=
  ∀ info properties, .object info properties ∈ schemas →
    ∀ property ∈ properties, Text.IsPlainText property.name.toList

theorem Schema.PlainAmong.mono {schemas wider : List Schema} (plain : PlainAmong wider)
    (subset : schemas ⊆ wider) : PlainAmong schemas :=
  fun info properties member => plain info properties (subset member)

namespace Resolution

open Schema (PlainAmong)

/-- The ways of all promotions among the stops are of ASCII. -/
def WaysAscii (stops : List Stop) : Prop :=
  ∀ promotion, .promotion promotion ∈ stops → IsAsciiName promotion.way

theorem waysAscii_nil : WaysAscii [] :=
  nofun

theorem WaysAscii.append {left right : List Stop} (first : WaysAscii left)
    (second : WaysAscii right) : WaysAscii (left ++ right) :=
  fun promotion member =>
    (List.mem_append.mp member).elim (first promotion) (second promotion)

theorem WaysAscii.cons {promotion : Promotion} {stops : List Stop}
    (own : IsAsciiName promotion.way) (inner : WaysAscii stops) :
    WaysAscii (.promotion promotion :: stops) := by
  intro other member
  rcases List.mem_cons.mp member with same | deeper
  · cases same
    exact own
  · exact inner other deeper

theorem isAsciiName_variantWay (index : Nat) : IsAsciiName (variantWay index) := by
  have word : IsAsciiName "Variant" := by decide
  exact word.append (isAsciiName_naturalText (index + 1))

mutual
theorem waysAscii_inlineStops : (owner : Position) → (way : String) →
    (position : Position) → (schema : Schema) → IsAsciiName way →
    PlainAmong schema.nodes → WaysAscii (inlineStops owner way position schema)
  | _, _, _, .reference .., _, _ => by simp [WaysAscii, inlineStops]
  | _, _, _, .primitive .., _, _ | _, _, _, .untypedMap _, _, _ => waysAscii_nil
  | _, _, _, .enum .., ascii, _ => WaysAscii.cons ascii waysAscii_nil
  | owner, _, position, .array _ items, ascii, plain =>
      waysAscii_inlineStops owner _ (position.child 0) items (ascii.append (by decide))
        (plain.mono (List.subset_append_left _ _))
  | owner, _, position, .map _ values, ascii, plain =>
      waysAscii_inlineStops owner _ (position.child 0) values (ascii.append (by decide))
        (plain.mono (List.subset_append_left _ _))
  | _, _, position, .object _ properties, ascii, plain =>
      WaysAscii.cons ascii (waysAscii_propertyStops position 0 properties
        (plain _ properties (List.mem_append_right _ List.mem_cons_self))
        (plain.mono (List.subset_append_left _ _)))
  | _, _, position, .union _ variants, ascii, plain =>
      WaysAscii.cons ascii (waysAscii_variantStops position 0 variants
        (plain.mono (List.subset_append_left _ _)))

theorem waysAscii_propertyStops : (owner : Position) → (index : Nat) →
    (properties : List (Property Schema)) →
    (∀ property ∈ properties, Text.IsPlainText property.name.toList) →
    PlainAmong (Schema.withinProperties properties) →
    WaysAscii (propertyStops owner index properties)
  | _, _, [], _, _ => waysAscii_nil
  | owner, index, ⟨name, _, schema⟩ :: rest, named, plain => by
      obtain ⟨here, later⟩ := List.forall_mem_cons.mp named
      rw [Schema.withinProperties, List.append_cons] at plain
      have ascii : IsAsciiName (Text.pascalCase name) := Text.ascii_pascalCase here
      rw [propertyStops]
      exact (waysAscii_inlineStops owner (Text.pascalCase name) (owner.child index) schema
          ascii (plain.mono (List.subset_append_left _ _))).append
        (waysAscii_propertyStops owner (index + 1) rest later
          (plain.mono (List.subset_append_right _ _)))

theorem waysAscii_variantStops : (owner : Position) → (index : Nat) →
    (variants : List Schema) → PlainAmong (Schema.withinVariants variants) →
    WaysAscii (variantStops owner index variants)
  | _, _, [], _ => waysAscii_nil
  | owner, index, variant :: rest, plain => by
      rw [Schema.withinVariants, List.append_cons] at plain
      rw [variantStops]
      exact (waysAscii_inlineStops owner (variantWay index) (owner.child index) variant
          (isAsciiName_variantWay index)
          (plain.mono (List.subset_append_left _ _))).append
        (waysAscii_variantStops owner (index + 1) rest
          (plain.mono (List.subset_append_right _ _)))
end

theorem waysAscii_definitionStops (position : Position) {schema : Schema}
    (plain : PlainAmong schema.nodes) : WaysAscii (definitionStops position schema) := by
  have inside := plain.mono (List.subset_append_left _ _)
  cases schema with
  | reference => simp [WaysAscii, definitionStops]
  | primitive | untypedMap | enum => exact waysAscii_nil
  | array _ items | map _ items =>
      exact waysAscii_inlineStops position _ (position.child 0) items (by decide) inside
  | object _ properties =>
      exact waysAscii_propertyStops position 0 properties
        (plain _ properties (List.mem_append_right _ List.mem_cons_self)) inside
  | union _ variants => exact waysAscii_variantStops position 0 variants inside

/-- All names that are given are of ASCII. -/
def Assignment.GivesAsciiNames (assignment : Assignment) : Prop :=
  ∀ entry ∈ assignment.names, IsAsciiName entry.2

theorem Assignment.GivesAsciiNames.nameOf {assignment : Assignment}
    (gives : assignment.GivesAsciiNames) (position : Position) :
    IsAsciiName (assignment.nameOf position) := by
  unfold Assignment.nameOf
  cases found : assignment.names.lookup position with
  | none =>
      have unknown : IsAsciiName "" := by decide
      exact unknown
  | some name => exact gives _ (Entries.mem_of_lookup found)

theorem Assignment.GivesAsciiNames.promoteAll {assignment next : Assignment}
    {events : List (Except CompileError Promotion)} (gives : assignment.GivesAsciiNames)
    (ways : ∀ promotion, .ok promotion ∈ events → IsAsciiName promotion.way)
    (promoted : assignment.promoteAll events = .ok next) : next.GivesAsciiNames := by
  induction events generalizing assignment with
  | nil =>
      cases promoted
      exact gives
  | cons event rest induction =>
      obtain ⟨middle, first, later⟩ := Outcome.bind_eq_ok_iff.mp promoted
      obtain ⟨promotion, rfl, made⟩ := Outcome.bind_eq_ok_iff.mp first
      obtain ⟨name, registry, found, rfl⟩ := promote_eq_ok_iff.mp made
      have context : IsAsciiName (assignment.nameOf promotion.owner ++ promotion.way) :=
        (gives.nameOf _).append (ways promotion List.mem_cons_self)
      have base := isAsciiName_typeName context.isPlainText
      refine induction (fun entry member => ?_)
        (fun other member => ways other (List.mem_cons_of_mem _ member)) later
      rcases List.mem_cons.mp member with rfl | earlier
      · exact base.of_isNumbered (Registry.isNumbered_of_synthesize found)
      · exact gives entry earlier

theorem givesAsciiNames_of_ofForest {forest : Forest} {assignment : Assignment}
    (keys : ∀ root ∈ forest.roots, Text.IsPlainText root.1.toList)
    (plain : ∀ root ∈ forest.roots, PlainAmong root.2.nodes)
    (assigned : Assignment.ofForest forest = .ok assignment) :
    assignment.GivesAsciiNames := by
  obtain ⟨declared, declares, promotes⟩ := Assignment.ofForest_eq_ok_iff.mp assigned
  obtain ⟨-, names⟩ := Assignment.names_of_declareAll Assignment.sound_empty declares
  refine Assignment.GivesAsciiNames.promoteAll ?_ ?_ promotes
  · intro entry member
    have declaration : entry ∈ forest.roots.map Assignment.declaredName := by
      simpa [names, Assignment.empty] using member
    obtain ⟨root, among, rfl⟩ := List.mem_map.mp declaration
    simp only [Assignment.declaredName]
    exact isAsciiName_typeName (keys root among)
  · intro promotion reported
    obtain ⟨root, among, met⟩ := promotion_of_mem_promotions reported
    obtain ⟨stop, member, same⟩ := List.mem_filterMap.mp met
    cases stop with
    | reference | failure => cases same
    | promotion =>
        cases same
        rcases mem_rootStops member with ⟨_, other, _⟩ | inner
        · cases other
        · exact waysAscii_definitionStops _ (plain root among) promotion inner

end Resolution

theorem isIdentifier_of_resolve {forest : Forest} {model : Model}
    (keys : ∀ root ∈ forest.roots, Text.IsPlainText root.1.toList)
    (plain : ∀ root ∈ forest.roots, Schema.PlainAmong root.2.nodes)
    (succeeds : forest.resolve = .ok model) :
    ∀ declaration ∈ model.declarations, IsIdentifier declaration.name := by
  obtain ⟨assignment, assigned, resolved⟩ := Resolution.assigned_of_ok succeeds
  intro declaration member
  apply (isTypeName_of_resolve succeeds declaration member).isIdentifier
  obtain ⟨root, declared, node, within, name, -⟩ := resolved.node_of_mem member
  rw [name]
  exact Resolution.givesAsciiNames_of_ofForest keys plain assigned _
    (resolved.named.mem_names (Resolution.mem_positions_of_named declared within))

/-! Names in documents. -/

/-- The names of the properties that a node lists. -/
def Node.propertyNames (node : Node) : List String :=
  (((node.get? "properties").bind entries?).getD []).map Prod.fst

/-- The keys of the declared schemas, and the names of the properties in all that is read as
a schema. -/
def Document.givenNames (document : Node) : List String :=
  (((Forest.section? document).bind Node.entries?).getD []).map Prod.fst ++
    (schemaNodes document).flatMap Node.propertyNames

theorem Node.Declares.names_eq {node : Node} {fields : List (String × Bool)}
    (declares : node.Declares fields) : fields.map Prod.fst = node.propertyNames := by
  obtain ⟨entries, listed, names⟩ := declares.exists_entries
  rw [names, propertyNames, listed]
  rfl

namespace Forest

variable {document : Node} {forest : Forest}

theorem key_mem_givenNames (distinct : document.KeysDistinct)
    (builds : ofDocument document = .ok forest) {root : String × Schema}
    (declared : root ∈ forest.roots) : root.1 ∈ Document.givenNames document := by
  apply List.mem_append_left
  cases located : section? document with
  | none =>
      rw [roots_of_no_section builds located] at declared
      cases declared
  | some section_ =>
      obtain ⟨entries, held⟩ := entries_of_ofDocument builds located
      obtain ⟨_, each⟩ := roots_of_ofDocument distinct builds located held
      obtain ⟨entry, among, same, _⟩ := Outcome.exists_of_forall₂ each.flip declared
      rw [Option.bind_some, held, same]
      exact List.mem_map_of_mem among

theorem property_mem_givenNames (distinct : document.KeysDistinct)
    (builds : ofDocument document = .ok forest) {root : String × Schema}
    (declared : root ∈ forest.roots) {info : SchemaInfo}
    {properties : List (Property Schema)} (inside : .object info properties ∈ root.2.nodes)
    {property : Property Schema} (member : property ∈ properties) :
    property.name ∈ Document.givenNames document := by
  obtain ⟨top, within, read⟩ := ofNode_of_root distinct builds declared
  obtain ⟨node, visited, _, shaped⟩ := Schema.exists_shapedBy read inside trivial
  apply List.mem_append_right
  refine List.mem_flatMap.mpr ⟨node, within visited, ?_⟩
  have declares : node.Declares
      (properties.map fun property => (property.name, property.required)) := shaped
  rw [← declares.names_eq, List.map_map]
  exact List.mem_map_of_mem (f := Property.name) member

end Forest

/-- Names of declarations are identifiers wherever the keys of schemas and the names of
properties have no letters and numbers beyond ASCII. -/
theorem identifiers_of_compile {document : Node} {model : Model}
    (loaded : Document.Loaded document)
    (plain : ∀ name ∈ Document.givenNames document, Text.IsPlainText name.toList)
    (compiles : compile document = .ok model) :
    ∀ declaration ∈ model.declarations, IsIdentifier declaration.name := by
  obtain ⟨forest, builds, resolves⟩ := Outcome.bind_eq_ok_iff.mp compiles
  refine isIdentifier_of_resolve ?_ ?_ resolves
  · intro root declared
    exact plain _ (Forest.key_mem_givenNames loaded.keysDistinct builds declared)
  · intro root declared info properties inside property member
    exact plain _ (Forest.property_mem_givenNames loaded.keysDistinct builds declared
      inside member)

namespace Document

/-- A digit at the beginning, a character that no name keeps, and properties without letters,
so that they share a name. -/
def blueprint : Node :=
  .mapping ⟨[]⟩ [("$defs", .mapping ⟨["$defs"]⟩
    [("3d→model", .mapping ⟨["$defs", "3d→model"]⟩
        [("properties", .mapping ⟨["$defs", "3d→model", "properties"]⟩
          [("", .mapping ⟨["$defs", "3d→model", "properties", ""]⟩
              [("const", .scalar ⟨["$defs", "3d→model", "properties", "", "const"]⟩
                (.bool true))]),
            ("-", .mapping ⟨["$defs", "3d→model", "properties", "-"]⟩
              [("const", .scalar ⟨["$defs", "3d→model", "properties", "-", "const"]⟩
                (.bool false))])])]),
      ("", typeNode ⟨["$defs", ""]⟩)])]

theorem loaded_blueprint : Loaded blueprint := by
  refine ⟨"\x7b\"$defs\":\x7b\"3d→model\":\x7b\"properties\":\x7b\"\":\x7b\"const\":true\x7d,\"-\":\x7b\"const\":false\x7d\x7d\x7d,\"\":\x7b\"type\":\"string\"\x7d\x7d\x7d", .inl ?_⟩
  decide +kernel

end Document

theorem identifiers_of_compile_blueprint : Document.Loaded Document.blueprint ∧
    (∀ name ∈ Document.givenNames Document.blueprint, Text.IsPlainText name.toList) ∧
    ∃ model, compile Document.blueprint = .ok model ∧
      model.declarations.map (·.name) =
        ["T3dModelUnnamed", "T3dModelUnnamed2", "T3dModel", "Unnamed"] ∧
      ∀ declaration ∈ model.declarations, IsIdentifier declaration.name := by
  have names : Document.givenNames Document.blueprint = ["3d→model", "", "", "-"] := by
    have leaves : ∀ entry ∈ ((Forest.section? Document.blueprint).bind Node.entries?).getD [],
        ∀ part ∈ entry.2.subschemas, part.subschemas = [] := by
      decide +kernel
    rw [Document.givenNames, Document.schemaNodes, List.flatMap_congr fun entry member =>
      Node.schemaNodes_of_leaves (leaves entry member)]
    decide +kernel
  have plain : ∀ name ∈ Document.givenNames Document.blueprint,
      Text.IsPlainText name.toList := by
    rw [names]
    decide +kernel
  have computed : (compile Document.blueprint).toOption.map
      (fun model => model.declarations.map (·.name)) =
        some ["T3dModelUnnamed", "T3dModelUnnamed2", "T3dModel", "Unnamed"] := by
    decide +kernel
  refine ⟨Document.loaded_blueprint, plain, ?_⟩
  cases compiles : compile Document.blueprint with
  | error => rw [compiles] at computed; cases computed
  | ok model =>
      rw [compiles] at computed
      exact ⟨model, rfl, Option.some.inj computed,
        identifiers_of_compile Document.loaded_blueprint plain compiles⟩

end Schemata
