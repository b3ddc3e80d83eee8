import Schemata.Proofs.Placement
import Schemata.Proofs.PureScript.Constructor
import Schemata.Proofs.Schema.Shaped

namespace Schemata

/-! The shapes of a compiled model keep the promises of their kinds, and so every data type
that is printed for it has a constructor. -/

def Definition.ShapedBy (node : Node) : Definition → Prop
  | .enum values =>
      values ≠ [] ∧ values.Pairwise fun left right => ¬ left.Equals right
  | .union variants => 2 ≤ variants.length
  | .object fields => node.Declares (fields.map fun field => (field.name, field.required))
  | _ => True

namespace Resolution

section

variable (nameOf : Position → String)

theorem map_fieldsOf (owner : Position) (index : Nat) (properties : List (Property Schema)) :
    (fieldsOf nameOf owner index properties).result.map
        (fun field => (field.name, field.required)) =
      properties.map fun property => (property.name, property.required) := by
  induction properties generalizing index with
  | nil => rfl
  | cons property rest induction =>
      obtain ⟨name, required, schema⟩ := property
      rw [fieldsOf, Declared.result_combine, List.map_cons, List.map_cons, induction]
      rfl

theorem length_variantTypes (owner : Position) (index : Nat) (variants : List Schema) :
    (variantTypes nameOf owner index variants).result.length = variants.length := by
  induction variants generalizing index with
  | nil => rfl
  | cons variant rest induction =>
      rw [variantTypes, Declared.result_combine, List.length_cons, List.length_cons,
        induction]

theorem shapedBy_definitionOf (position : Position) {node : Node} {schema : Schema} :
    (definitionOf nameOf position schema).result.ShapedBy node ↔ schema.ShapedBy node := by
  cases schema with
  | object _ properties =>
      rw [definitionOf, Declared.result_map, Definition.ShapedBy, map_fieldsOf,
        Schema.ShapedBy]
  | union _ variants =>
      rw [definitionOf, Declared.result_map, Definition.ShapedBy, length_variantTypes,
        Schema.ShapedBy]
  | reference | primitive | enum | array | map | untypedMap => exact Iff.rfl

end

theorem Resolved.schema_of_mem {forest : Forest} {assignment : Assignment} {model : Model}
    (resolved : Resolved forest assignment model) {declaration : Declaration}
    (member : declaration ∈ model.declarations) :
    ∃ root ∈ forest.roots, ∃ position, ∃ schema ∈ root.2.nodes,
      declaration.location = schema.location ∧
      declaration.definition = (definitionOf assignment.nameOf position schema).result := by
  obtain ⟨root, declared, ⟨shape, within, rfl⟩ | rfl⟩ := resolved.shape_or_root member
  · have named : shape ∈ namedNodes root := List.mem_append_left _ within
    exact ⟨root, declared, shape.1, shape.2, mem_nodes_of_named named, rfl, rfl⟩
  · exact ⟨root, declared, _, root.2, mem_nodes_of_named (root_mem_namedNodes root), rfl, rfl⟩

end Resolution

theorem Forest.ofNode_of_root {document : Node} {forest : Forest} {root : String × Schema}
    (distinct : document.KeysDistinct) (builds : ofDocument document = .ok forest)
    (declared : root ∈ forest.roots) :
    ∃ node, node.schemaNodes ⊆ Document.schemaNodes document ∧
      Schema.ofNode node = .ok root.2 := by
  cases located : section? document with
  | none =>
      rw [roots_of_no_section builds located] at declared
      cases declared
  | some section_ =>
      obtain ⟨entries, held⟩ := entries_of_ofDocument builds located
      obtain ⟨_, each⟩ := roots_of_ofDocument distinct builds located held
      obtain ⟨entry, among, _, read⟩ := Outcome.exists_of_forall₂ each.flip declared
      refine ⟨entry.2, ?_, read⟩
      intro inner inside
      rw [Document.schemaNodes, located, Option.bind_some, held]
      exact List.mem_flatMap.mpr ⟨entry, among, inside⟩

/-- A declaration is shaped by the node that its location designates. -/
theorem shapedBy_of_compile {document : Node} {model : Model}
    (loaded : Document.Loaded document) (compiles : compile document = .ok model)
    {declaration : Declaration} (member : declaration ∈ model.declarations) :
    ∃ node, document.designated? declaration.location.text = some node ∧
      node.KeysDistinct ∧ declaration.definition.ShapedBy node := by
  obtain ⟨forest, builds, resolves⟩ := Outcome.bind_eq_ok_iff.mp compiles
  obtain ⟨assignment, resolved⟩ := Resolution.resolved_of_ok resolves
  obtain ⟨root, declared, position, schema, inside, stands, definition⟩ :=
    resolved.schema_of_mem member
  obtain ⟨node, among, here, shaped⟩ : ∃ node ∈ Document.schemaNodes document,
      node.location = declaration.location ∧ schema.ShapedBy node := by
    by_cases named : schema.NeedsName
    · obtain ⟨top, within, read⟩ :=
        Forest.ofNode_of_root loaded.keysDistinct builds declared
      obtain ⟨node, visited, here, shaped⟩ := Schema.exists_shapedBy read inside named
      exact ⟨node, within visited, here.trans stands.symm, shaped⟩
    · have placed := (Forest.locations_sublist resolves).trans
        (Forest.places_sublist loaded.keysDistinct builds)
      obtain ⟨node, among, here⟩ :=
        List.mem_map.mp (placed.subset (List.mem_map_of_mem member))
      exact ⟨node, among, here, Schema.shapedBy_of_not_needsName named⟩
  have standing := (Document.schemaNodes_sublist document).subset among
  refine ⟨node, ?_, (loaded.located.of_mem standing).keysDistinct, ?_⟩
  · rw [← here]
    exact loaded.designated standing
  · rw [definition]
    exact (Resolution.shapedBy_definitionOf _ _).mpr shaped

theorem Forest.target_of_reference {forest : Forest} {model : Model}
    (resolves : forest.resolve = .ok model) {declaration : Declaration}
    (member : declaration ∈ model.declarations) {target : TypeRef}
    (refers : declaration.definition = .reference target) :
    ∃ root ∈ forest.roots, target = .named (typeName root.1) := by
  obtain ⟨assignment, resolved⟩ := Resolution.resolved_of_ok resolves
  obtain ⟨root, declared, position, schema, inside, _, definition⟩ :=
    resolved.schema_of_mem member
  rw [definition] at refers
  cases schema with
  | reference info name =>
      cases refers
      have known := resolved.references root declared info name inside
      obtain ⟨other, among, rfl⟩ := List.mem_map.mp known
      exact ⟨other, among, rfl⟩
  | primitive | enum | object | array | map | untypedMap | union => cases refers

theorem PureScript.constructors_ne_nil_of_spells {source : Schemata.Declaration}
    {printed : Declaration} {constructors : List DataConstructor} {node : Node}
    (spells : printed.Spells source) (shaped : source.definition.ShapedBy node)
    (body : printed.body = .data constructors) : constructors ≠ [] := by
  obtain ⟨_, spelled⟩ := spells
  rw [body] at spelled
  rintro rfl
  cases shape : source.definition with
  | object =>
      rw [shape] at spelled
      obtain ⟨_, other⟩ := spelled
      cases other
  | enum values =>
      rw [shape] at spelled shaped
      obtain ⟨own, null, whole, each, _⟩ := spelled
      injection whole with whole
      obtain ⟨rfl, _⟩ := List.append_eq_nil_iff.mp whole.symm
      exact shaped.1 (List.forall₂_nil_right_iff.mp each)
  | union variants =>
      rw [shape] at spelled shaped
      obtain ⟨own, null, whole, each, _⟩ := spelled
      injection whole with whole
      obtain ⟨rfl, _⟩ := List.append_eq_nil_iff.mp whole.symm
      rw [List.forall₂_nil_right_iff.mp each] at shaped
      exact Nat.not_succ_le_zero 1 shaped
  | primitive | array | map | untypedMap | reference =>
      rw [shape] at spelled
      obtain ⟨_, other⟩ := spelled
      cases other

/-- What every consumer of a model may take for granted. -/
structure Model.WellShaped (document : Node) (model : Model) : Prop where
  enums : ∀ source ∈ model.declarations, ∀ values, source.definition = .enum values →
    values ≠ [] ∧ values.Pairwise fun left right => ¬ left.Equals right
  unions : ∀ source ∈ model.declarations, ∀ variants, source.definition = .union variants →
    2 ≤ variants.length
  objects : ∀ source ∈ model.declarations, ∀ fields, source.definition = .object fields →
    (fields.map (·.name)).Nodup ∧
    ∃ node, document.designated? source.location.text = some node ∧
      node.Declares (fields.map fun field => (field.name, field.required))
  references : ∀ source ∈ model.declarations, ∀ target,
    source.definition = .reference target →
    ∃ forest, Forest.ofDocument document = .ok forest ∧
      ∃ root ∈ forest.roots, target = .named (typeName root.1) ∧
        ∃ declaration, model.get? (typeName root.1) = some declaration ∧
          declaration.location = root.2.location
  constructors : ∀ options, ∀ printed ∈ PureScript.Declaration.ofModel options model,
    ∀ constructors, printed.body = .data constructors → constructors ≠ []

theorem wellShaped_of_compile {document : Node} {model : Model}
    (loaded : Document.Loaded document) (compiles : compile document = .ok model) :
    model.WellShaped document := by
  constructor
  case enums =>
    intro source member values shape
    obtain ⟨node, _, _, shaped⟩ := shapedBy_of_compile loaded compiles member
    rwa [shape] at shaped
  case unions =>
    intro source member variants shape
    obtain ⟨node, _, _, shaped⟩ := shapedBy_of_compile loaded compiles member
    rwa [shape] at shaped
  case objects =>
    intro source member fields shape
    obtain ⟨node, designated, distinct, shaped⟩ :=
      shapedBy_of_compile loaded compiles member
    rw [shape, Definition.ShapedBy] at shaped
    have names := shaped.nodup distinct
    rw [List.map_map] at names
    exact ⟨names, node, designated, shaped⟩
  case references =>
    intro source member target refers
    obtain ⟨forest, builds, resolves⟩ := Outcome.bind_eq_ok_iff.mp compiles
    obtain ⟨root, declared, same⟩ := Forest.target_of_reference resolves member refers
    obtain ⟨declaration, found, stands, _⟩ :=
      get?_root_of_resolve resolves root declared
    exact ⟨forest, builds, root, declared, same, declaration, found, stands⟩
  case constructors =>
    intro options printed member constructors body
    have each := PureScript.Declaration.spells_ofModelFrom options (.ofModel model)
      model.declarations
    obtain ⟨source, among, spells⟩ := Outcome.exists_of_forall₂ each.flip member
    obtain ⟨node, _, _, shaped⟩ := shapedBy_of_compile loaded compiles among
    exact PureScript.constructors_ne_nil_of_spells spells shaped body

namespace Document

def menagerie : Node :=
  .mapping ⟨[]⟩ [("$defs", .mapping ⟨["$defs"]⟩
    [("Pet", .mapping ⟨["$defs", "Pet"]⟩
        [("required", .sequence ⟨["$defs", "Pet", "required"]⟩
            [.scalar ⟨["$defs", "Pet", "required", "0"]⟩ (.string "tag")]),
          ("properties", .mapping ⟨["$defs", "Pet", "properties"]⟩
            [("name", .mapping ⟨["$defs", "Pet", "properties", "name"]⟩
                [("type", .sequence ⟨["$defs", "Pet", "properties", "name", "type"]⟩
                  [.scalar ⟨["$defs", "Pet", "properties", "name", "type", "0"]⟩
                      (.string "string"),
                    .scalar ⟨["$defs", "Pet", "properties", "name", "type", "1"]⟩
                      (.string "integer")])]),
              ("tag", .mapping ⟨["$defs", "Pet", "properties", "tag"]⟩
                [("const", .scalar ⟨["$defs", "Pet", "properties", "tag", "const"]⟩
                  (.bool true))])])]),
      ("Any", .mapping ⟨["$defs", "Any"]⟩
        [("$ref", .scalar ⟨["$defs", "Any", "$ref"]⟩ (.string "#/$defs/Pet"))])])]

theorem loaded_menagerie : Loaded menagerie := by
  refine ⟨"\x7b\"$defs\":\x7b\"Pet\":\x7b\"required\":[\"tag\"],\"properties\":\x7b\"name\":\x7b\"type\":[\"string\",\"integer\"]\x7d,\"tag\":\x7b\"const\":true\x7d\x7d\x7d,\"Any\":\x7b\"$ref\":\"#/$defs/Pet\"\x7d\x7d\x7d", .inl ?_⟩
  decide +kernel

end Document

theorem wellShaped_of_compile_menagerie : Document.Loaded Document.menagerie ∧
    ∃ model, compile Document.menagerie = .ok model ∧
      (model.declarations.map fun source => (source.name, source.definition.kindName)) =
        [("PetName", "union"), ("PetTag", "enum"), ("Pet", "object"), ("Any", "reference")] ∧
      model.WellShaped Document.menagerie := by
  refine ⟨Document.loaded_menagerie, ?_⟩
  have computed : (compile Document.menagerie).toOption.map (fun model =>
      model.declarations.map fun source => (source.name, source.definition.kindName)) =
        some [("PetName", "union"), ("PetTag", "enum"), ("Pet", "object"),
          ("Any", "reference")] := by
    decide +kernel
  cases compiles : compile Document.menagerie with
  | error => rw [compiles] at computed; cases computed
  | ok model =>
      rw [compiles] at computed
      exact ⟨model, rfl, Option.some.inj computed,
        wellShaped_of_compile Document.loaded_menagerie compiles⟩

end Schemata
