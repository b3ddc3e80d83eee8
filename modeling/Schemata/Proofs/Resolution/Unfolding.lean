import Schemata.Proofs.Model.Unfolding
import Schemata.Proofs.Resolution.Closure

namespace Schemata

namespace Resolution

open Unfolding

/-! A resolved model unfolds to the forest it comes from. Anonymous shapes nest, so as
many declarations as there are shapes are enough to unfold any of them. -/

theorem inlineType_ne_nullable (nameOf : Position → String) (position : Position)
    (schema : Schema) (inner : TypeRef) :
    (inlineType nameOf position schema).result ≠ .nullable inner := by
  cases schema <;> exact nofun

private theorem elementSchema_elementType {named : String → Bool → Option Schema}
    {schema : Schema} {type : TypeRef} (plain : ∀ inner, type ≠ .nullable inner) :
    elementSchema named (elementType schema type) =
      typeSchema named schema.nullable type := by
  unfold elementType
  split
  · next null =>
    rw [null]
    rfl
  · next present =>
    rw [Bool.not_eq_true] at present
    rw [present]
    cases type with
    | nullable inner => exact absurd rfl (plain inner)
    | primitive | named | array | map | untypedMap => rfl

section

variable {roots : List String} {model : Model} {nameOf : Position → String}

/-- References are told from shapes by their names, and the shapes are declared. -/
structure Legible (roots : List String) (model : Model)
    (nameOf : Position → String) (shapes : List (Position × Schema))
    (references : List (String × Location)) : Prop where
  anonymous : ∀ shape ∈ shapes, rootNamed? roots (nameOf shape.1) = none
  declared : ∀ shape ∈ shapes,
    model.get? (nameOf shape.1) = some (shapeDeclaration nameOf shape)
  referred : ∀ reference ∈ references,
    rootNamed? roots (typeName reference.1) = some reference.1

namespace Legible

variable {shapes otherShapes : List (Position × Schema)}
  {references otherReferences : List (String × Location)}

theorem mono (legible : Legible roots model nameOf shapes references)
    (fewerShapes : otherShapes ⊆ shapes)
    (fewerReferences : otherReferences ⊆ references) :
    Legible roots model nameOf otherShapes otherReferences where
  anonymous shape member := legible.anonymous shape (fewerShapes member)
  declared shape member := legible.declared shape (fewerShapes member)
  referred reference member := legible.referred reference (fewerReferences member)

theorem left (legible : Legible roots model nameOf (shapes ++ otherShapes)
      (references ++ otherReferences)) :
    Legible roots model nameOf shapes references :=
  legible.mono (List.subset_append_left _ _) (List.subset_append_left _ _)

theorem right (legible : Legible roots model nameOf (shapes ++ otherShapes)
      (references ++ otherReferences)) :
    Legible roots model nameOf otherShapes otherReferences :=
  legible.mono (List.subset_append_right _ _) (List.subset_append_right _ _)

theorem inside (legible : Legible roots model nameOf (shapes ++ otherShapes)
      references) :
    Legible roots model nameOf shapes references :=
  legible.mono (List.subset_append_left _ _) (List.Subset.refl _)

end Legible

theorem namedSchema_root {name root : String}
    (read : rootNamed? roots name = some root) (depth : Nat) (nullable : Bool) :
    namedSchema roots model depth name nullable =
      some (.reference (plainInfo nullable) root) := by
  cases depth <;> simp only [namedSchema, read, Option.map_some]

/-! What the parts of a type or a definition are read as decides what the whole is
read as. -/

section

variable {named : String → Bool → Option Schema} {position : Position}
  {items : Schema} {info : SchemaInfo} {properties : List (Property Schema)}
  {variants : List Schema}

theorem elementSchema_of_read
    (read : typeSchema named items.nullable
      (inlineType nameOf position items).result = some items.bare) :
    elementSchema named
      (elementType items (inlineType nameOf position items).result) =
      some items.bare := by
  rw [elementSchema_elementType (inlineType_ne_nullable nameOf position items)]
  exact read

theorem definitionSchema_of_fields
    (read : (fieldsOf nameOf position 0 properties).result.mapM
      (fieldProperty named) = some (Schema.bareProperties properties)) :
    definitionSchema named info.nullable
      (definitionOf nameOf position (.object info properties)).result =
      some (Schema.object info properties).bare := by
  simp only [definitionOf, Declared.result_map, definitionSchema, read]
  rfl

theorem definitionSchema_of_variants
    (read : (variantTypes nameOf position 0 variants).result.mapM
      (elementSchema named) = some (Schema.bareVariants variants)) :
    definitionSchema named info.nullable
      (definitionOf nameOf position (.union info variants)).result =
      some (Schema.union info variants).bare := by
  simp only [definitionOf, Declared.result_map, definitionSchema, read]
  rfl

end

/-- Reading a shape takes one declaration. -/
theorem namedSchema_shape {shapes : List (Position × Schema)}
    {references : List (String × Location)}
    (legible : Legible roots model nameOf shapes references)
    {position : Position} {schema : Schema} (member : (position, schema) ∈ shapes)
    (depth : Nat) (nullable : Bool) :
    namedSchema roots model (depth + 1) (nameOf position) nullable =
      definitionSchema (namedSchema roots model depth) nullable
        (definitionOf nameOf position schema).result := by
  have anonymous := legible.anonymous _ member
  have declared := legible.declared _ member
  simp only at anonymous declared
  simp only [namedSchema, anonymous, declared]
  simp [shapeDeclaration]

mutual
theorem typeSchema_inlineType : (position : Position) → (schema : Schema) →
    (depth : Nat) →
    Legible roots model nameOf (shapesAt position schema) schema.references →
    (shapesAt position schema).length ≤ depth →
    typeSchema (namedSchema roots model depth) schema.nullable
      (inlineType nameOf position schema).result = some schema.bare
  | _, .primitive .., _, _, _ | _, .untypedMap _, _, _, _ => rfl
  | _, .reference info target, depth, legible, _ =>
      namedSchema_root (legible.referred (target, info.location)
        (List.mem_singleton_self _)) depth info.nullable
  | position, .array info items, depth, legible, deep => by
      rw [shapesAt_array] at legible deep
      rw [Schema.references_array] at legible
      have read := typeSchema_inlineType (position.child 0) items depth legible deep
      simp only [inlineType, Declared.result_map, typeSchema_array,
        elementSchema_of_read read]
      rfl
  | position, .map info values, depth, legible, deep => by
      rw [shapesAt_map] at legible deep
      rw [Schema.references_map] at legible
      have read := typeSchema_inlineType (position.child 0) values depth legible deep
      simp only [inlineType, Declared.result_map, typeSchema_map,
        elementSchema_of_read read]
      rfl
  | position, .enum info values, depth + 1, legible, _ =>
      namedSchema_shape legible (List.mem_singleton_self _) depth info.nullable
  | position, .object info properties, depth, legible, deep => by
      rw [shapesAt_object] at legible deep
      rw [Schema.references_object] at legible
      rw [List.length_append] at deep
      cases depth with
      | zero => cases deep
      | succ depth =>
          -- The shape takes one step of the depth, those inside it take the others.
          have read := mapM_fieldProperty_fieldsOf position 0 properties depth
            legible.inside (Nat.le_of_succ_le_succ deep)
          rw [← definitionSchema_of_fields read]
          exact namedSchema_shape legible
            (List.mem_append_right _ (List.mem_singleton_self _)) depth info.nullable
  | position, .union info variants, depth, legible, deep => by
      rw [shapesAt_union] at legible deep
      rw [Schema.references_union] at legible
      rw [List.length_append] at deep
      cases depth with
      | zero => cases deep
      | succ depth =>
          have read := mapM_elementSchema_variantTypes position 0 variants depth
            legible.inside (Nat.le_of_succ_le_succ deep)
          rw [← definitionSchema_of_variants read]
          exact namedSchema_shape legible
            (List.mem_append_right _ (List.mem_singleton_self _)) depth info.nullable

theorem mapM_fieldProperty_fieldsOf : (owner : Position) → (index : Nat) →
    (properties : List (Property Schema)) → (depth : Nat) →
    Legible roots model nameOf (propertyShapes owner index properties)
      (Schema.referencesAmong (Schema.withinProperties properties)) →
    (propertyShapes owner index properties).length ≤ depth →
    (fieldsOf nameOf owner index properties).result.mapM
      (fieldProperty (namedSchema roots model depth)) =
      some (Schema.bareProperties properties)
  | _, _, [], _, _, _ => rfl
  | owner, index, ⟨name, required, schema⟩ :: rest, depth, legible, deep => by
      rw [propertyShapes_cons, Schema.references_properties] at legible
      rw [propertyShapes_cons, List.length_append] at deep
      have read := typeSchema_inlineType (owner.child index) schema depth
        legible.left (by omega)
      have more := mapM_fieldProperty_fieldsOf owner (index + 1) rest depth
        legible.right (by omega)
      simp only [fieldsOf, Declared.result_combine, fieldOf, List.mapM_cons, fieldProperty,
        read, more]
      rfl

theorem mapM_elementSchema_variantTypes : (owner : Position) → (index : Nat) →
    (variants : List Schema) → (depth : Nat) →
    Legible roots model nameOf (variantShapes owner index variants)
      (Schema.referencesAmong (Schema.withinVariants variants)) →
    (variantShapes owner index variants).length ≤ depth →
    (variantTypes nameOf owner index variants).result.mapM
      (elementSchema (namedSchema roots model depth)) =
      some (Schema.bareVariants variants)
  | _, _, [], _, _, _ => rfl
  | owner, index, variant :: rest, depth, legible, deep => by
      rw [variantShapes_cons, Schema.references_variants] at legible
      rw [variantShapes_cons, List.length_append] at deep
      have read := typeSchema_inlineType (owner.child index) variant depth
        legible.left (by omega)
      have more := mapM_elementSchema_variantTypes owner (index + 1) rest depth
        legible.right (by omega)
      simp only [variantTypes, Declared.result_combine, List.mapM_cons,
        elementSchema_of_read read, more]
      rfl
end

theorem definitionSchema_definitionOf (position : Position) (schema : Schema)
    (depth : Nat)
    (legible : Legible roots model nameOf (shapesWithin position schema)
      schema.references)
    (deep : (shapesWithin position schema).length ≤ depth) :
    definitionSchema (namedSchema roots model depth) schema.nullable
      (definitionOf nameOf position schema).result = some schema.bare := by
  cases schema with
  | primitive | untypedMap | enum => rfl
  | reference info target =>
      exact namedSchema_root (legible.referred (target, info.location)
        (List.mem_singleton_self _)) depth info.nullable
  | array info items =>
      rw [Schema.references_array] at legible
      have read := typeSchema_inlineType (position.child 0) items depth legible deep
      simp only [definitionOf, Declared.result_map, definitionSchema,
        elementSchema_of_read read]
      rfl
  | map info values =>
      rw [Schema.references_map] at legible
      have read := typeSchema_inlineType (position.child 0) values depth legible deep
      simp only [definitionOf, Declared.result_map, definitionSchema,
        elementSchema_of_read read]
      rfl
  | object info properties =>
      rw [Schema.references_object] at legible
      exact definitionSchema_of_fields
        (mapM_fieldProperty_fieldsOf position 0 properties depth legible deep)
  | union info variants =>
      rw [Schema.references_union] at legible
      exact definitionSchema_of_variants
        (mapM_elementSchema_variantTypes position 0 variants depth legible deep)

end

/-! Null stays on elements. -/

theorem nullOutermost_elementType {schema : Schema} {type : TypeRef}
    (placed : type.NullOnElements) : (elementType schema type).NullOutermost := by
  unfold elementType
  split
  · exact placed
  · exact placed.outermost

section

variable (nameOf : Position → String)

theorem nullOnElements_inlineType : (position : Position) → (schema : Schema) →
    (inlineType nameOf position schema).result.NullOnElements
  | _, .reference .. | _, .primitive .. | _, .untypedMap _ | _, .enum ..
  | _, .object .. | _, .union .. => trivial
  | position, .array _ items =>
      TypeRef.nullOnElements_array.mpr (nullOutermost_elementType
        (nullOnElements_inlineType (position.child 0) items))
  | position, .map _ values =>
      TypeRef.nullOnElements_map.mpr (nullOutermost_elementType
        (nullOnElements_inlineType (position.child 0) values))

theorem nullOnElements_fieldsOf (owner : Position) (index : Nat)
    (properties : List (Property Schema)) :
    ∀ field ∈ (fieldsOf nameOf owner index properties).result,
      field.type.NullOnElements := by
  induction properties generalizing index with
  | nil => exact nofun
  | cons property rest induction =>
      intro field member
      rcases List.mem_cons.mp member with rfl | later
      · exact nullOnElements_inlineType nameOf _ property.schema
      · exact induction (index + 1) field later

theorem nullOutermost_variantTypes (owner : Position) (index : Nat)
    (variants : List Schema) :
    ∀ type ∈ (variantTypes nameOf owner index variants).result,
      type.NullOutermost := by
  induction variants generalizing index with
  | nil => exact nofun
  | cons variant rest induction =>
      intro type member
      rcases List.mem_cons.mp member with rfl | later
      · exact nullOutermost_elementType (nullOnElements_inlineType nameOf _ variant)
      · exact induction (index + 1) type later

theorem nullOnElements_definitionOf (position : Position) (schema : Schema) :
    (definitionOf nameOf position schema).result.NullOnElements := by
  cases schema with
  | reference | primitive | untypedMap | enum => trivial
  | array _ items | map _ items =>
      exact nullOutermost_elementType (nullOnElements_inlineType nameOf _ items)
  | object _ properties => exact nullOnElements_fieldsOf nameOf position 0 properties
  | union _ variants => exact nullOutermost_variantTypes nameOf position 0 variants

end

namespace Resolved

variable {forest : Forest} {assignment : Assignment} {model : Model}

theorem rootNamed?_root (resolved : Resolved forest assignment model)
    {root : String} (declared : root ∈ forest.roots.map Prod.fst) :
    rootNamed? (forest.roots.map Prod.fst) (typeName root) = some root := by
  refine rootNamed?_typeName declared ?_
  intro other otherDeclared same
  rw [← resolved.named.nameOf_root declared,
    ← resolved.named.nameOf_root otherDeclared] at same
  exact congrArg Position.root (resolved.named.nameOf_inj
    (root_mem_positions otherDeclared) (root_mem_positions declared) same)

/-- No shape takes the name of a root. -/
theorem nameOf_shape_ne (resolved : Resolved forest assignment model)
    {root : String × Schema} (declared : root ∈ forest.roots)
    {shape : Position × Schema} (within : shape ∈ shapesWithin ⟨root.1, []⟩ root.2)
    {other : String} (otherDeclared : other ∈ forest.roots.map Prod.fst) :
    assignment.nameOf ⟨other, []⟩ ≠ assignment.nameOf shape.1 := by
  intro same
  have position : (⟨other, []⟩ : Position) = shape.1 :=
    resolved.named.nameOf_inj (root_mem_positions otherDeclared)
      (mem_positions_of_named declared (List.mem_append_left _ within)) same
  exact path_ne_nil within (position ▸ rfl)

theorem rootNamed?_shape (resolved : Resolved forest assignment model)
    {root : String × Schema} (declared : root ∈ forest.roots)
    {shape : Position × Schema} (within : shape ∈ shapesWithin ⟨root.1, []⟩ root.2) :
    rootNamed? (forest.roots.map Prod.fst) (assignment.nameOf shape.1) = none := by
  refine rootNamed?_eq_none_iff.mpr ?_
  intro other otherDeclared
  rw [← resolved.named.nameOf_root otherDeclared]
  exact resolved.nameOf_shape_ne declared within otherDeclared

theorem legible (resolved : Resolved forest assignment model)
    {root : String × Schema} (declared : root ∈ forest.roots)
    {node : Position × Schema} (member : node ∈ namedNodes root) :
    Legible (forest.roots.map Prod.fst) model assignment.nameOf
      (shapesWithin node.1 node.2) node.2.references := by
  have within := shapesWithin_subset_of_named member
  have among := Schema.nodes_subset (mem_nodes_of_named member)
  constructor
  · intro shape inside
    exact resolved.rootNamed?_shape declared (within inside)
  · intro shape inside
    exact Model.get?_eq_some_iff.mpr
      ⟨resolved.mem_of_shape declared (within inside), rfl⟩
  · rintro ⟨target, location⟩ referred
    obtain ⟨info, found, _⟩ := Schema.mem_references.mp referred
    exact resolved.rootNamed?_root
      (resolved.references root declared info target (among found))

theorem length_shapesWithin_le (resolved : Resolved forest assignment model)
    {root : String × Schema} (declared : root ∈ forest.roots)
    {node : Position × Schema} (member : node ∈ namedNodes root) :
    (shapesWithin node.1 node.2).length ≤ model.size := by
  have distinct : (shapesWithin node.1 node.2).Nodup :=
    (spread_shapesWithin node.1 node.2).distinct.of_map
  have inner := distinct.length_le_of_subset (shapesWithin_subset_of_named member)
  have blockMember : block assignment.nameOf root.1 root.2 ∈
      forest.roots.map fun root => block assignment.nameOf root.1 root.2 :=
    List.mem_map.mpr ⟨root, declared, rfl⟩
  have whole := (List.sublist_flatten_of_mem blockMember).length_le
  rw [block_eq, List.length_append, List.length_map] at whole
  rw [Model.size, resolved.blocks, List.flatMap]
  omega

theorem definitionSchema_eq (resolved : Resolved forest assignment model)
    {root : String × Schema} (declared : root ∈ forest.roots)
    {node : Position × Schema} (member : node ∈ namedNodes root) :
    definitionSchema
      (namedSchema (forest.roots.map Prod.fst) model model.size) node.2.nullable
      (definitionOf assignment.nameOf node.1 node.2).result =
      some node.2.bare :=
  definitionSchema_definitionOf node.1 node.2 model.size
    (resolved.legible declared member)
    (resolved.length_shapesWithin_le declared member)

theorem rootSchema_eq (resolved : Resolved forest assignment model)
    {root : String × Schema} (declared : root ∈ forest.roots) :
    rootSchema (forest.roots.map Prod.fst) model root.1 =
      some (root.1, root.2.bare) := by
  have read := resolved.definitionSchema_eq declared (root_mem_namedNodes root)
  simp only [rootSchema, resolved.get?_root declared, rootDeclaration,
    Option.bind_eq_bind, Option.bind_some, read]
  rfl

theorem unfold_eq (resolved : Resolved forest assignment model) :
    model.unfold (forest.roots.map Prod.fst) = some forest.bare := by
  suffices general : ∀ entries : List (String × Schema), entries ⊆ forest.roots →
      (entries.map Prod.fst).mapM
        (rootSchema (forest.roots.map Prod.fst) model) =
        some (entries.map fun root => (root.1, root.2.bare)) from
    general forest.roots (List.Subset.refl _)
  intro entries declared
  induction entries with
  | nil => rfl
  | cons root rest induction =>
      obtain ⟨rootDeclared, restDeclared⟩ := List.cons_subset.mp declared
      simp only [List.map_cons, List.mapM_cons,
        resolved.rootSchema_eq rootDeclared, induction restDeclared]
      rfl

end Resolved

end Resolution

/-- Nothing of a forest is lost in a model of it, and nothing is added to it. -/
structure Model.FaithfulTo (model : Model) (forest : Forest) : Prop where
  unfolds : model.unfold (forest.roots.map Prod.fst) = some forest.bare
  promoted_present : ∀ declaration ∈ model.declarations,
    (∀ root ∈ forest.roots, declaration.name ≠ typeName root.1) →
      declaration.nullable = false
  null_on_elements : ∀ declaration ∈ model.declarations,
    declaration.definition.NullOnElements

theorem faithfulTo_of_resolve {forest : Forest} {model : Model}
    (succeeds : forest.resolve = .ok model) : model.FaithfulTo forest := by
  obtain ⟨assignment, resolved⟩ := Resolution.resolved_of_ok succeeds
  constructor
  · exact resolved.unfold_eq
  · intro declaration member promoted
    obtain ⟨root, declared, ⟨shape, _, rfl⟩ | rfl⟩ := resolved.shape_or_root member
    · rfl
    · have rooted := resolved.named.nameOf_root
        (List.mem_map.mpr ⟨root, declared, rfl⟩)
      exact absurd rooted (promoted root declared)
  · intro declaration member
    obtain ⟨root, _, node, _, _, definition⟩ := resolved.node_of_mem member
    rw [definition]
    exact Resolution.nullOnElements_definitionOf _ _ _

theorem faithfulTo_of_resolve_shelter : ∃ model,
    Forest.shelter.resolve = .ok model ∧ model.FaithfulTo Forest.shelter := by
  obtain ⟨model, succeeds, _⟩ := Forest.resolve_shelter
  exact ⟨model, succeeds, faithfulTo_of_resolve succeeds⟩

end Schemata
