import Schemata.Proofs.Resolution.Shape

namespace Schemata.Resolution

/-! The stops of a schema against its tree: one promotion for each anonymous shape
and one reference for each reference, and nothing else. -/

def Stop.promotion? : Stop → Option Promotion
  | .promotion met => some met
  | _ => none

def Stop.reference? : Stop → Option (String × Location)
  | .reference target location => some (target, location)
  | _ => none

def promotionsOf (stops : List Stop) : List Promotion :=
  stops.filterMap Stop.promotion?

def referencesOf (stops : List Stop) : List (String × Location) :=
  stops.filterMap Stop.reference?

@[simp] theorem promotionsOf_append (left right : List Stop) :
    promotionsOf (left ++ right) = promotionsOf left ++ promotionsOf right :=
  List.filterMap_append

@[simp] theorem referencesOf_append (left right : List Stop) :
    referencesOf (left ++ right) = referencesOf left ++ referencesOf right :=
  List.filterMap_append

theorem mem_referencesOf {stops : List Stop} {target : String}
    {location : Location} :
    (target, location) ∈ referencesOf stops ↔
      .reference target location ∈ stops := by
  simp only [referencesOf, List.mem_filterMap]
  constructor
  · rintro ⟨stop, member, read⟩
    cases stop <;> simp_all [Stop.reference?]
  · intro member
    exact ⟨_, member, rfl⟩

/-! Promotions. -/

/-- What a promotion and the shape that it promotes have in common. -/
def Promotion.outline (promotion : Promotion) : Position × Location :=
  (promotion.position, promotion.location)

def outlineOf (shape : Position × Schema) : Position × Location :=
  (shape.1, shape.2.location)

private theorem perm_own_last {stops : List Promotion} {shape : Position × Schema}
    {promotion : Promotion} {inner : List (Position × Schema)}
    (perm : (stops.map Promotion.outline).Perm (inner.map outlineOf))
    (own : promotion.outline = outlineOf shape) :
    ((promotion :: stops).map Promotion.outline).Perm
      ((inner ++ [shape]).map outlineOf) := by
  rw [List.map_cons, List.map_append, own]
  exact (perm.cons _).trans (List.perm_append_singleton _ _).symm

mutual
theorem outlines_inlineStops : (owner : Position) → (way : String) →
    (position : Position) → (schema : Schema) →
    ((promotionsOf (inlineStops owner way position schema)).map
      Promotion.outline).Perm ((shapesAt position schema).map outlineOf)
  | _, _, _, .reference .. | _, _, _, .primitive ..
  | _, _, _, .untypedMap _ | _, _, _, .enum .. => List.Perm.refl _
  | owner, way, position, .array info items => by
      rw [shapesAt_array]
      exact outlines_inlineStops owner (way ++ itemWay) (position.child 0) items
  | owner, way, position, .map info values => by
      rw [shapesAt_map]
      exact outlines_inlineStops owner (way ++ valueWay) (position.child 0) values
  | _, _, position, .object _ properties =>
      perm_own_last (outlines_propertyStops position 0 properties) rfl
  | _, _, position, .union _ variants =>
      perm_own_last (outlines_variantStops position 0 variants) rfl

theorem outlines_propertyStops : (owner : Position) → (index : Nat) →
    (properties : List (Property Schema)) →
    ((promotionsOf (propertyStops owner index properties)).map
      Promotion.outline).Perm ((propertyShapes owner index properties).map outlineOf)
  | _, _, [] => List.Perm.refl _
  | owner, index, ⟨name, _, schema⟩ :: rest => by
      rw [propertyStops, promotionsOf_append, propertyShapes_cons,
        List.map_append, List.map_append]
      exact (outlines_inlineStops owner (Text.pascalCase name)
        (owner.child index) schema).append
        (outlines_propertyStops owner (index + 1) rest)

theorem outlines_variantStops : (owner : Position) → (index : Nat) →
    (variants : List Schema) →
    ((promotionsOf (variantStops owner index variants)).map
      Promotion.outline).Perm ((variantShapes owner index variants).map outlineOf)
  | _, _, [] => List.Perm.refl _
  | owner, index, variant :: rest => by
      rw [variantStops, promotionsOf_append, variantShapes_cons,
        List.map_append, List.map_append]
      exact (outlines_inlineStops owner (variantWay index)
        (owner.child index) variant).append
        (outlines_variantStops owner (index + 1) rest)
end

theorem outlines_definitionStops (position : Position) (schema : Schema) :
    ((promotionsOf (definitionStops position schema)).map
      Promotion.outline).Perm ((shapesWithin position schema).map outlineOf) := by
  cases schema with
  | reference | primitive | untypedMap | enum => exact List.Perm.refl _
  | array _ items => exact outlines_inlineStops _ _ _ items
  | map _ values => exact outlines_inlineStops _ _ _ values
  | object _ properties => exact outlines_propertyStops _ _ properties
  | union _ variants => exact outlines_variantStops _ _ variants

theorem positions_definitionStops (position : Position) (schema : Schema) :
    ((promotionsOf (definitionStops position schema)).map
      (·.position)).Perm ((shapesWithin position schema).map Prod.fst) := by
  have positions := (outlines_definitionStops position schema).map Prod.fst
  rwa [List.map_map, List.map_map] at positions

/-! The stops of a shape are among those of what it stands in. -/

private theorem stops_subset_own {stop : Stop} {stops : List Stop}
    {shape : Position × Schema} {inner : List (Position × Schema)}
    (each : ∀ node ∈ inner, definitionStops node.1 node.2 ⊆ stops)
    (own : definitionStops shape.1 shape.2 = stops) :
    ∀ node ∈ inner ++ [shape], definitionStops node.1 node.2 ⊆ stop :: stops := by
  intro node member
  apply List.subset_cons_of_subset
  rcases List.mem_append.mp member with deeper | last
  · exact each node deeper
  · rw [List.mem_singleton.mp last, own]
    exact List.Subset.refl _

mutual
theorem stops_subset_inline : (owner : Position) → (way : String) →
    (position : Position) → (schema : Schema) →
    ∀ node ∈ shapesAt position schema,
      definitionStops node.1 node.2 ⊆ inlineStops owner way position schema
  | _, _, _, .reference .. | _, _, _, .primitive .. | _, _, _, .untypedMap _ => nofun
  | _, _, position, .enum info values => by
      intro node member
      rw [List.mem_singleton.mp member]
      exact List.nil_subset _
  | owner, way, position, .array info items => by
      rw [shapesAt_array]
      exact stops_subset_inline owner (way ++ itemWay) (position.child 0) items
  | owner, way, position, .map info values => by
      rw [shapesAt_map]
      exact stops_subset_inline owner (way ++ valueWay) (position.child 0) values
  | _, _, position, .object _ properties =>
      stops_subset_own (stops_subset_properties position 0 properties) rfl
  | _, _, position, .union _ variants =>
      stops_subset_own (stops_subset_variants position 0 variants) rfl

theorem stops_subset_properties : (owner : Position) → (index : Nat) →
    (properties : List (Property Schema)) →
    ∀ node ∈ propertyShapes owner index properties,
      definitionStops node.1 node.2 ⊆ propertyStops owner index properties
  | _, _, [] => nofun
  | owner, index, ⟨name, _, schema⟩ :: rest => by
      intro node member
      rw [propertyShapes_cons] at member
      rw [propertyStops]
      rcases List.mem_append.mp member with here | later
      · exact List.subset_append_of_subset_left _
          (stops_subset_inline owner _ (owner.child index) schema node here)
      · exact List.subset_append_of_subset_right _
          (stops_subset_properties owner (index + 1) rest node later)

theorem stops_subset_variants : (owner : Position) → (index : Nat) →
    (variants : List Schema) →
    ∀ node ∈ variantShapes owner index variants,
      definitionStops node.1 node.2 ⊆ variantStops owner index variants
  | _, _, [] => nofun
  | owner, index, variant :: rest => by
      intro node member
      rw [variantShapes_cons] at member
      rw [variantStops]
      rcases List.mem_append.mp member with here | later
      · exact List.subset_append_of_subset_left _
          (stops_subset_inline owner _ (owner.child index) variant node here)
      · exact List.subset_append_of_subset_right _
          (stops_subset_variants owner (index + 1) rest node later)
end

theorem stops_subset_definition (position : Position) (schema : Schema) :
    ∀ node ∈ shapesWithin position schema,
      definitionStops node.1 node.2 ⊆ definitionStops position schema := by
  cases schema with
  | reference | primitive | untypedMap | enum => exact nofun
  | array _ items | map _ items => exact stops_subset_inline _ _ _ items
  | object _ properties => exact stops_subset_properties _ _ properties
  | union _ variants => exact stops_subset_variants _ _ variants

theorem stops_subset_of_named {root : String × Schema} {node : Position × Schema}
    (member : node ∈ namedNodes root) :
    definitionStops node.1 node.2 ⊆ definitionStops ⟨root.1, []⟩ root.2 := by
  rcases List.mem_append.mp member with shape | own
  · exact stops_subset_definition _ _ node shape
  · rw [List.mem_singleton.mp own]
    exact List.Subset.refl _

/-! References. -/

mutual
theorem referencesOf_inlineStops : (owner : Position) → (way : String) →
    (position : Position) → (schema : Schema) →
    referencesOf (inlineStops owner way position schema) = schema.references
  | _, _, _, .reference .. | _, _, _, .primitive ..
  | _, _, _, .untypedMap _ | _, _, _, .enum .. => rfl
  | owner, way, position, .array info items => by
      rw [Schema.references_array]
      exact referencesOf_inlineStops owner (way ++ itemWay) (position.child 0) items
  | owner, way, position, .map info values => by
      rw [Schema.references_map]
      exact referencesOf_inlineStops owner (way ++ valueWay) (position.child 0)
        values
  | _, _, position, .object info properties => by
      rw [Schema.references_object]
      exact referencesOf_propertyStops position 0 properties
  | _, _, position, .union info variants => by
      rw [Schema.references_union]
      exact referencesOf_variantStops position 0 variants

theorem referencesOf_propertyStops : (owner : Position) → (index : Nat) →
    (properties : List (Property Schema)) →
    referencesOf (propertyStops owner index properties) =
      Schema.referencesAmong (Schema.withinProperties properties)
  | _, _, [] => rfl
  | owner, index, ⟨_, _, schema⟩ :: rest => by
      rw [propertyStops, referencesOf_append, Schema.references_properties,
        referencesOf_inlineStops _ _ _ schema, referencesOf_propertyStops _ _ rest]

theorem referencesOf_variantStops : (owner : Position) → (index : Nat) →
    (variants : List Schema) →
    referencesOf (variantStops owner index variants) =
      Schema.referencesAmong (Schema.withinVariants variants)
  | _, _, [] => rfl
  | owner, index, variant :: rest => by
      rw [variantStops, referencesOf_append, Schema.references_variants,
        referencesOf_inlineStops _ _ _ variant, referencesOf_variantStops _ _ rest]
end

theorem referencesOf_definitionStops (position : Position) (schema : Schema) :
    referencesOf (definitionStops position schema) = schema.references := by
  cases schema with
  | reference | primitive | untypedMap | enum => rfl
  | array info items =>
      rw [Schema.references_array]
      exact referencesOf_inlineStops _ _ _ items
  | map info values =>
      rw [Schema.references_map]
      exact referencesOf_inlineStops _ _ _ values
  | object info properties =>
      rw [Schema.references_object]
      exact referencesOf_propertyStops position 0 properties
  | union info variants =>
      rw [Schema.references_union]
      exact referencesOf_variantStops position 0 variants

/-! Faults. -/

mutual
theorem failure_not_mem_inlineStops {error : CompileError} : (owner : Position) →
    (way : String) → (position : Position) → (schema : Schema) →
    .failure error ∉ inlineStops owner way position schema
  | _, _, _, .reference .. | _, _, _, .primitive ..
  | _, _, _, .untypedMap _ | _, _, _, .enum .. => by simp [inlineStops]
  | owner, way, position, .array _ items =>
      failure_not_mem_inlineStops owner (way ++ itemWay) (position.child 0) items
  | owner, way, position, .map _ values =>
      failure_not_mem_inlineStops owner (way ++ valueWay) (position.child 0) values
  | _, _, position, .object _ properties => by
      have inner : .failure error ∉ propertyStops position 0 properties :=
        failure_not_mem_propertyStops position 0 properties
      simpa [inlineStops] using inner
  | _, _, position, .union _ variants => by
      have inner : .failure error ∉ variantStops position 0 variants :=
        failure_not_mem_variantStops position 0 variants
      simpa [inlineStops] using inner

theorem failure_not_mem_propertyStops {error : CompileError} :
    (owner : Position) → (index : Nat) → (properties : List (Property Schema)) →
    .failure error ∉ propertyStops owner index properties
  | _, _, [] => by simp [propertyStops]
  | owner, index, ⟨name, _, schema⟩ :: rest => by
      rw [propertyStops, List.mem_append, not_or]
      exact ⟨failure_not_mem_inlineStops owner _ _ schema,
        failure_not_mem_propertyStops owner _ rest⟩

theorem failure_not_mem_variantStops {error : CompileError} :
    (owner : Position) → (index : Nat) → (variants : List Schema) →
    .failure error ∉ variantStops owner index variants
  | _, _, [] => by simp [variantStops]
  | owner, index, variant :: rest => by
      rw [variantStops, List.mem_append, not_or]
      exact ⟨failure_not_mem_inlineStops owner _ _ variant,
        failure_not_mem_variantStops owner _ rest⟩
end

theorem failure_not_mem_definitionStops {error : CompileError}
    (position : Position) (schema : Schema) :
    .failure error ∉ definitionStops position schema := by
  cases schema with
  | reference | primitive | untypedMap | enum => simp [definitionStops]
  | array _ items | map _ items =>
      exact failure_not_mem_inlineStops _ _ _ items
  | object _ properties => exact failure_not_mem_propertyStops _ _ properties
  | union _ variants => exact failure_not_mem_variantStops _ _ variants

end Schemata.Resolution
