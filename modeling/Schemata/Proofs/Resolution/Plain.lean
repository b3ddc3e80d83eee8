import Schemata.Proofs.Resolution.Resolved
import Schemata.Proofs.Schema.Plain

namespace Schemata

/-! Descriptions and examples go through resolution without an effect: the walk does
not see them, and the declarations carry them along. -/

def Field.plain (field : Field) : Field :=
  { field with docs := field.docs.plain }

def Definition.plain : Definition → Definition
  | .object fields => .object (fields.map Field.plain)
  | definition => definition

def Declaration.plain (declaration : Declaration) : Declaration :=
  { declaration with
    definition := declaration.definition.plain
    docs := declaration.docs.plain }

/-- The declarations without descriptions and examples. -/
def Model.plain (model : Model) : List Declaration :=
  model.declarations.map Declaration.plain

namespace Resolution

/-! Stops. -/

mutual
theorem inlineStops_plain : (owner : Position) → (way : String) →
    (position : Position) → (schema : Schema) →
    inlineStops owner way position schema.plain =
      inlineStops owner way position schema
  | _, _, _, .reference .. | _, _, _, .primitive ..
  | _, _, _, .untypedMap _ | _, _, _, .enum .. => rfl
  | owner, way, position, .array _ items =>
      inlineStops_plain owner (way ++ itemWay) (position.child 0) items
  | owner, way, position, .map _ values =>
      inlineStops_plain owner (way ++ valueWay) (position.child 0) values
  | _, _, position, .object _ properties =>
      congrArg (List.cons _) (propertyStops_plain position 0 properties)
  | _, _, position, .union _ variants =>
      congrArg (List.cons _) (variantStops_plain position 0 variants)

theorem propertyStops_plain : (owner : Position) → (index : Nat) →
    (properties : List (Property Schema)) →
    propertyStops owner index (Schema.plainProperties properties) =
      propertyStops owner index properties
  | _, _, [] => rfl
  | owner, index, ⟨name, _, schema⟩ :: rest => by
      rw [Schema.plainProperties, propertyStops, propertyStops,
        inlineStops_plain owner _ _ schema, propertyStops_plain owner _ rest]

theorem variantStops_plain : (owner : Position) → (index : Nat) →
    (variants : List Schema) →
    variantStops owner index (Schema.plainVariants variants) =
      variantStops owner index variants
  | _, _, [] => rfl
  | owner, index, variant :: rest => by
      rw [Schema.plainVariants, variantStops, variantStops,
        inlineStops_plain owner _ _ variant, variantStops_plain owner _ rest]
end

theorem definitionStops_plain (position : Position) (schema : Schema) :
    definitionStops position schema.plain = definitionStops position schema := by
  cases schema with
  | reference | primitive | untypedMap | enum => rfl
  | array _ items | map _ items => exact inlineStops_plain _ _ _ items
  | object _ properties => exact propertyStops_plain _ _ properties
  | union _ variants => exact variantStops_plain _ _ variants

/-! The walk. -/

theorem aliasCycle?_plain (forest : Forest) (bound : Nat) (seen : List String)
    (root : String) :
    aliasCycle? forest.plain bound seen root = aliasCycle? forest bound seen root := by
  induction bound generalizing seen root with
  | zero => rfl
  | succ bound induction =>
      simp only [aliasCycle?, forest.lookup_plain]
      cases forest.roots.lookup root with
      | none => rfl
      | some schema =>
          cases schema with
          | reference => simp only [Option.map_some, Schema.plain, induction]
          | primitive | enum | object | array | map | untypedMap | union => rfl

theorem rootStops_plain (forest : Forest) (root : String) (schema : Schema) :
    rootStops forest.plain root schema.plain = rootStops forest root schema := by
  have length : forest.plain.roots.length = forest.roots.length :=
    List.length_map _
  simp only [rootStops, definitionStops_plain, aliasCycle?_plain, length]
  cases schema <;> rfl

theorem follow_plain (forest : Forest)
    (enter : List String → List Stop → List (Except CompileError Promotion))
    (unvisited : List String) (stops : List Stop) :
    follow forest.plain enter unvisited stops =
      follow forest enter unvisited stops := by
  induction stops with
  | nil => rfl
  | cons stop rest induction =>
      cases stop with
      | promotion promotion => simp only [follow, induction]
      | failure => rfl
      | reference target location =>
          simp only [follow, forest.lookup_plain]
          cases forest.roots.lookup target with
          | none => rfl
          | some schema =>
              simp only [Option.map_some, rootStops_plain, induction]

theorem walk_plain (forest : Forest) (bound : Nat) :
    walk forest.plain bound = walk forest bound := by
  induction bound with
  | zero =>
      funext unvisited stops
      exact follow_plain forest _ unvisited stops
  | succ bound induction =>
      funext unvisited stops
      rw [walk, walk, induction]
      exact follow_plain forest _ unvisited stops

theorem promotions_plain (forest : Forest) :
    promotions forest.plain = promotions forest := by
  rw [promotions, promotions, walk_plain]
  simp only [Forest.plain, List.length_map, List.map_map, Function.comp_def,
    Schema.location_plain]

/-! Names. -/

theorem Assignment.declareAll_plain (assignment : Assignment) (forest : Forest) :
    assignment.declareAll forest.plain.roots = assignment.declareAll forest.roots := by
  simp only [declareAll, Forest.plain, List.foldlM_map, declare,
    Schema.location_plain]

theorem Assignment.ofForest_plain (forest : Forest) :
    ofForest forest.plain = ofForest forest := by
  have declared := declareAll_plain .empty forest
  simp only [declareAll] at declared
  rw [ofForest, ofForest, declared, promotions_plain]

/-! Declarations. -/

@[simp] theorem elementType_plain (schema : Schema) (type : TypeRef) :
    elementType schema.plain type = elementType schema type := by
  rw [elementType, elementType, Schema.nullable_plain]

section

variable (nameOf : Position → String)

theorem type_plain : (position : Position) → (schema : Schema) →
    (inlineType nameOf position schema.plain).result =
      (inlineType nameOf position schema).result
  | _, .reference .. | _, .primitive .. | _, .untypedMap _ | _, .enum ..
  | _, .object .. | _, .union .. => rfl
  | position, .array _ items | position, .map _ items => by
      simp only [Schema.plain, inlineType, Declared.result_map,
        type_plain (position.child 0) items, elementType_plain]

theorem fields_plain : (owner : Position) → (index : Nat) →
    (properties : List (Property Schema)) →
    (fieldsOf nameOf owner index (Schema.plainProperties properties)).result =
      (fieldsOf nameOf owner index properties).result.map Field.plain
  | _, _, [] => rfl
  | owner, index, ⟨_, _, schema⟩ :: rest => by
      simp only [Schema.plainProperties, fieldsOf, Declared.result_combine, fieldOf,
        List.map_cons, Field.plain, type_plain nameOf (owner.child index) schema,
        fields_plain owner (index + 1) rest, Schema.nullable_plain,
        Schema.docs_plain]

theorem variants_plain : (owner : Position) → (index : Nat) →
    (variants : List Schema) →
    (variantTypes nameOf owner index (Schema.plainVariants variants)).result =
      (variantTypes nameOf owner index variants).result
  | _, _, [] => rfl
  | owner, index, variant :: rest => by
      simp only [Schema.plainVariants, variantTypes, Declared.result_combine,
        type_plain nameOf (owner.child index) variant,
        variants_plain owner (index + 1) rest, elementType_plain]

theorem definition_plain (position : Position) (schema : Schema) :
    (definitionOf nameOf position schema.plain).result =
      (definitionOf nameOf position schema).result.plain := by
  cases schema with
  | reference | primitive | untypedMap | enum => rfl
  | array _ items | map _ items =>
      simp only [Schema.plain, definitionOf, Declared.result_map, type_plain,
        elementType_plain, Definition.plain]
  | object _ properties =>
      simp only [Schema.plain, definitionOf, Declared.result_map, fields_plain,
        Definition.plain]
  | union _ variants =>
      simp only [Schema.plain, definitionOf, Declared.result_map, variants_plain,
        Definition.plain]

end

/-! Blocks. -/

theorem needsName_plain (schema : Schema) :
    schema.plain.NeedsName ↔ schema.NeedsName := by
  cases schema <;> rfl

theorem ownShape_plain (position : Position) (schema : Schema) :
    ownShape position schema.plain =
      (ownShape position schema).map (Prod.map id Schema.plain) := by
  simp only [ownShape, needsName_plain]
  split <;> rfl

mutual
theorem shapesWithin_plain : (position : Position) → (schema : Schema) →
    shapesWithin position schema.plain =
      (shapesWithin position schema).map (Prod.map id Schema.plain)
  | _, .reference .. | _, .primitive .. | _, .enum .. | _, .untypedMap _ => rfl
  | position, .array _ items | position, .map _ items => by
      simp only [Schema.plain, shapesWithin, List.map_append, ownShape_plain,
        shapesWithin_plain (position.child 0) items]
  | position, .object _ properties => propertyShapes_plain position 0 properties
  | position, .union _ variants => variantShapes_plain position 0 variants

theorem propertyShapes_plain : (owner : Position) → (index : Nat) →
    (properties : List (Property Schema)) →
    propertyShapes owner index (Schema.plainProperties properties) =
      (propertyShapes owner index properties).map (Prod.map id Schema.plain)
  | _, _, [] => rfl
  | owner, index, ⟨_, _, schema⟩ :: rest => by
      simp only [Schema.plainProperties, propertyShapes, List.map_append,
        ownShape_plain, shapesWithin_plain (owner.child index) schema,
        propertyShapes_plain owner (index + 1) rest]

theorem variantShapes_plain : (owner : Position) → (index : Nat) →
    (variants : List Schema) →
    variantShapes owner index (Schema.plainVariants variants) =
      (variantShapes owner index variants).map (Prod.map id Schema.plain)
  | _, _, [] => rfl
  | owner, index, variant :: rest => by
      simp only [Schema.plainVariants, variantShapes, List.map_append,
        ownShape_plain, shapesWithin_plain (owner.child index) variant,
        variantShapes_plain owner (index + 1) rest]
end

section

variable (nameOf : Position → String)

theorem shapeDeclaration_plain (shape : Position × Schema) :
    shapeDeclaration nameOf (Prod.map id Schema.plain shape) =
      (shapeDeclaration nameOf shape).plain := by
  simp only [shapeDeclaration, Declaration.plain, Prod.map, id, definition_plain,
    Schema.docs_plain, Schema.location_plain]
  rfl

theorem rootDeclaration_plain (root : String × Schema) :
    rootDeclaration nameOf (root.1, root.2.plain) =
      (rootDeclaration nameOf root).plain := by
  simp only [rootDeclaration, Declaration.plain, definition_plain,
    Schema.docs_plain, Schema.location_plain, Schema.nullable_plain]

theorem block_plain (root : String × Schema) :
    block nameOf root.1 root.2.plain =
      (block nameOf root.1 root.2).map Declaration.plain := by
  have declared := block_eq nameOf (root.1, root.2.plain)
  simp only [shapesWithin_plain, List.map_map, Function.comp_def,
    shapeDeclaration_plain, rootDeclaration_plain] at declared
  rw [declared, block_eq, List.map_append, List.map_map]
  rfl

end

end Resolution

open Resolution

theorem Forest.resolve_plain (forest : Forest) :
    Outcome.Agree (fun model plain => model.plain = plain.declarations)
      forest.resolve forest.plain.resolve := by
  cases assigned : Assignment.ofForest forest with
  | error error =>
      have fails := (Assignment.ofForest_plain forest).trans assigned
      rw [resolve, resolve, declarations_eq, declarations_eq, assigned, fails]
      exact .error error
  | ok assignment =>
      have succeeds := (Assignment.ofForest_plain forest).trans assigned
      obtain ⟨model, resolves, resolved⟩ := resolve_of_assigned assigned
      obtain ⟨plain, follows, kept⟩ := resolve_of_assigned succeeds
      rw [resolves, follows]
      refine .ok ?_
      rw [Model.plain, resolved.blocks, kept.blocks, List.map_flatMap,
        Forest.plain, List.flatMap_map]
      simp only [block_plain]

/-- Schemas that differ in descriptions and examples only fail alike or have models
that differ in descriptions and examples only. -/
theorem Forest.resolve_agree_of_plain_eq {forest other : Forest}
    (same : forest.plain = other.plain) :
    Outcome.Agree (fun model partner => model.plain = partner.plain)
      forest.resolve other.resolve := by
  have left := forest.resolve_plain
  rw [same] at left
  exact left.trans other.resolve_plain.symm fun first second =>
    first.trans second.symm

end Schemata
