import Schemata.Proofs.Resolution.Shape
import Schemata.Resolution.Block

namespace Schemata.Resolution

/-! The declarations of a root are those of the shapes inside it and its own, and their
definitions mention other declarations only by the names of their positions. -/

section

variable (nameOf : Position → String)

def shapeDeclaration (shape : Position × Schema) : Declaration where
  name := nameOf shape.1
  definition := (definitionOf nameOf shape.1 shape.2).result
  nullable := false
  docs := promotedDocs shape.2.docs
  location := shape.2.location

def rootDeclaration (root : String × Schema) : Declaration where
  name := nameOf ⟨root.1, []⟩
  definition := (definitionOf nameOf ⟨root.1, []⟩ root.2).result
  nullable := root.2.nullable
  docs := root.2.docs
  location := root.2.location

mutual
theorem promoted_inlineType : (position : Position) → (schema : Schema) →
    (inlineType nameOf position schema).promoted =
      (shapesAt position schema).map (shapeDeclaration nameOf)
  | _, .reference .. | _, .primitive .. | _, .untypedMap _ | _, .enum .. => rfl
  | position, .array info items => by
      rw [shapesAt_array]
      exact promoted_inlineType (position.child 0) items
  | position, .map info values => by
      rw [shapesAt_map]
      exact promoted_inlineType (position.child 0) values
  | position, .object info properties => by
      rw [shapesAt_object, List.map_append,
        ← promoted_fieldsOf position 0 properties]
      rfl
  | position, .union info variants => by
      rw [shapesAt_union, List.map_append,
        ← promoted_variantTypes position 0 variants]
      rfl

theorem promoted_fieldsOf : (owner : Position) → (index : Nat) →
    (properties : List (Property Schema)) →
    (fieldsOf nameOf owner index properties).promoted =
      (propertyShapes owner index properties).map (shapeDeclaration nameOf)
  | _, _, [] => rfl
  | owner, index, ⟨_, _, schema⟩ :: rest => by
      rw [propertyShapes_cons, List.map_append,
        ← promoted_inlineType (owner.child index) schema,
        ← promoted_fieldsOf owner (index + 1) rest]
      rfl

theorem promoted_variantTypes : (owner : Position) → (index : Nat) →
    (variants : List Schema) →
    (variantTypes nameOf owner index variants).promoted =
      (variantShapes owner index variants).map (shapeDeclaration nameOf)
  | _, _, [] => rfl
  | owner, index, variant :: rest => by
      rw [variantShapes_cons, List.map_append,
        ← promoted_inlineType (owner.child index) variant,
        ← promoted_variantTypes owner (index + 1) rest]
      rfl
end

theorem promoted_definitionOf (position : Position) (schema : Schema) :
    (definitionOf nameOf position schema).promoted =
      (shapesWithin position schema).map (shapeDeclaration nameOf) := by
  cases schema with
  | reference | primitive | untypedMap | enum => rfl
  | array _ items | map _ items => exact promoted_inlineType nameOf _ items
  | object _ properties => exact promoted_fieldsOf nameOf _ _ properties
  | union _ variants => exact promoted_variantTypes nameOf _ _ variants

theorem block_eq (root : String × Schema) :
    block nameOf root.1 root.2 =
      (shapesWithin ⟨root.1, []⟩ root.2).map (shapeDeclaration nameOf) ++
        [rootDeclaration nameOf root] := by
  rw [block, declareAs, promoted_definitionOf]
  rfl

theorem map_name_block (root : String × Schema) :
    (block nameOf root.1 root.2).map (·.name) =
      ((namedNodes root).map Prod.fst).map nameOf := by
  rw [block_eq, namedNodes]
  simp only [List.map_append, List.map_map]
  rfl

theorem map_name_blocks (forest : Forest) :
    (forest.roots.flatMap fun root => block nameOf root.1 root.2).map (·.name) =
      (positions forest).map nameOf := by
  simp only [positions, List.map_flatMap, map_name_block]

end

/-! A block depends on the names of the positions in its root only. -/

section

variable {nameOf other : Position → String}

private theorem agree_append {left right : List (Position × Schema)}
    (agree : ∀ shape ∈ left ++ right, nameOf shape.1 = other shape.1) :
    (∀ shape ∈ left, nameOf shape.1 = other shape.1) ∧
      ∀ shape ∈ right, nameOf shape.1 = other shape.1 :=
  List.forall_mem_append.mp agree

theorem inlineType_congr : (position : Position) → (schema : Schema) →
    (∀ shape ∈ shapesAt position schema, nameOf shape.1 = other shape.1) →
    (inlineType nameOf position schema).result =
      (inlineType other position schema).result
  | _, .reference .., _ | _, .primitive .., _ | _, .untypedMap _, _ => rfl
  | position, .array info items, agree => by
      rw [shapesAt_array] at agree
      simp only [inlineType, Declared.result_map,
        inlineType_congr (position.child 0) items agree]
  | position, .map info values, agree => by
      rw [shapesAt_map] at agree
      simp only [inlineType, Declared.result_map,
        inlineType_congr (position.child 0) values agree]
  | position, .enum info values, agree =>
      congrArg TypeRef.named (agree (position, .enum info values)
        (List.mem_append_right _ (List.mem_singleton_self _)))
  | position, .object info properties, agree =>
      congrArg TypeRef.named (agree (position, .object info properties)
        (List.mem_append_right _ (List.mem_singleton_self _)))
  | position, .union info variants, agree =>
      congrArg TypeRef.named (agree (position, .union info variants)
        (List.mem_append_right _ (List.mem_singleton_self _)))

theorem fieldsOf_congr : (owner : Position) → (index : Nat) →
    (properties : List (Property Schema)) →
    (∀ shape ∈ propertyShapes owner index properties,
      nameOf shape.1 = other shape.1) →
    (fieldsOf nameOf owner index properties).result =
      (fieldsOf other owner index properties).result
  | _, _, [], _ => rfl
  | owner, index, ⟨_, _, schema⟩ :: rest, agree => by
      obtain ⟨here, later⟩ := agree_append agree
      simp only [fieldsOf, Declared.result_combine,
        inlineType_congr (owner.child index) schema here,
        fieldsOf_congr owner (index + 1) rest later]

theorem variantTypes_congr : (owner : Position) → (index : Nat) →
    (variants : List Schema) →
    (∀ shape ∈ variantShapes owner index variants,
      nameOf shape.1 = other shape.1) →
    (variantTypes nameOf owner index variants).result =
      (variantTypes other owner index variants).result
  | _, _, [], _ => rfl
  | owner, index, variant :: rest, agree => by
      obtain ⟨here, later⟩ := agree_append agree
      simp only [variantTypes, Declared.result_combine,
        inlineType_congr (owner.child index) variant here,
        variantTypes_congr owner (index + 1) rest later]

theorem definitionOf_congr {position : Position} {schema : Schema}
    (agree : ∀ shape ∈ shapesWithin position schema,
      nameOf shape.1 = other shape.1) :
    (definitionOf nameOf position schema).result =
      (definitionOf other position schema).result := by
  cases schema with
  | reference | primitive | untypedMap | enum => rfl
  | array _ items | map _ items =>
      simp only [definitionOf, Declared.result_map, inlineType_congr _ items agree]
  | object _ properties =>
      simp only [definitionOf, Declared.result_map, fieldsOf_congr _ _ properties agree]
  | union _ variants =>
      simp only [definitionOf, Declared.result_map, variantTypes_congr _ _ variants agree]

theorem block_congr {root : String × Schema}
    (agree : ∀ node ∈ namedNodes root, nameOf node.1 = other node.1) :
    block nameOf root.1 root.2 = block other root.1 root.2 := by
  have definition : ∀ node ∈ namedNodes root,
      (definitionOf nameOf node.1 node.2).result =
        (definitionOf other node.1 node.2).result :=
    fun node member => definitionOf_congr fun shape within =>
      agree shape (List.mem_append_left _
        (shapesWithin_subset_of_named member within))
  have own := root_mem_namedNodes root
  rw [block_eq, block_eq]
  congr 1
  · refine List.map_congr_left fun shape within => ?_
    have named := List.mem_append_left [(⟨root.1, []⟩, root.2)] within
    rw [shapeDeclaration, shapeDeclaration, agree shape named,
      definition shape named]
  · rw [rootDeclaration, rootDeclaration, agree _ own, definition _ own]

end

end Schemata.Resolution
