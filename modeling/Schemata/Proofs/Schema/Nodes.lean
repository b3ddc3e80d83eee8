import Schemata.Schema.Basic

namespace Schemata

/-! The schemas inside a schema, and what is left of a schema without documentation
and locations. -/

namespace Schema

mutual
/-- All schemas inside a schema in source order, each after the ones inside it. -/
def within : Schema → List Schema
  | .reference .. | .primitive .. | .enum .. | .untypedMap _ => []
  | .array _ items => items.within ++ [items]
  | .map _ values => values.within ++ [values]
  | .object _ properties => withinProperties properties
  | .union _ variants => withinVariants variants

def withinProperties : List (Property Schema) → List Schema
  | [] => []
  | ⟨_, _, schema⟩ :: rest =>
      schema.within ++ schema :: withinProperties rest

def withinVariants : List Schema → List Schema
  | [] => []
  | variant :: rest => variant.within ++ variant :: withinVariants rest
end

mutual
theorem within_subset : (schema : Schema) → ∀ inner ∈ schema.within,
    inner.within ⊆ schema.within
  | .reference .. | .primitive .. | .enum .. | .untypedMap _ => nofun
  | .array _ items | .map _ items => by
      intro inner member
      refine List.subset_append_of_subset_left _ ?_
      rcases List.mem_append.mp member with deeper | child
      · exact within_subset items inner deeper
      · rw [List.mem_singleton.mp child]
        exact List.Subset.refl _
  | .object _ properties => withinProperties_subset properties
  | .union _ variants => withinVariants_subset variants

theorem withinProperties_subset : (properties : List (Property Schema)) →
    ∀ inner ∈ withinProperties properties,
      inner.within ⊆ withinProperties properties
  | [] => nofun
  | ⟨_, _, schema⟩ :: rest => by
      intro inner member
      rcases List.mem_append.mp member with deeper | later
      · exact List.subset_append_of_subset_left _
          (within_subset schema inner deeper)
      · rcases List.mem_cons.mp later with rfl | later
        · exact List.subset_append_left _ _
        · exact List.subset_append_of_subset_right _ (List.subset_cons_of_subset _
            (withinProperties_subset rest inner later))

theorem withinVariants_subset : (variants : List Schema) →
    ∀ inner ∈ withinVariants variants, inner.within ⊆ withinVariants variants
  | [] => nofun
  | variant :: rest => by
      intro inner member
      rcases List.mem_append.mp member with deeper | later
      · exact List.subset_append_of_subset_left _
          (within_subset variant inner deeper)
      · rcases List.mem_cons.mp later with rfl | later
        · exact List.subset_append_left _ _
        · exact List.subset_append_of_subset_right _ (List.subset_cons_of_subset _
            (withinVariants_subset rest inner later))
end

def nodes (schema : Schema) : List Schema := schema.within ++ [schema]

theorem withinProperties_eq_flatMap (properties : List (Property Schema)) :
    withinProperties properties = (properties.map (·.schema)).flatMap nodes := by
  induction properties with
  | nil => rfl
  | cons property rest induction =>
      obtain ⟨name, required, schema⟩ := property
      rw [withinProperties, List.append_cons, induction]
      rfl

theorem withinVariants_eq_flatMap (variants : List Schema) :
    withinVariants variants = variants.flatMap nodes := by
  induction variants with
  | nil => rfl
  | cons variant rest induction =>
      rw [withinVariants, List.append_cons, induction]
      rfl

theorem nodes_subset {schema inner : Schema} (member : inner ∈ schema.nodes) :
    inner.nodes ⊆ schema.nodes := by
  rcases List.mem_append.mp member with deeper | own
  · refine List.append_subset.mpr ⟨?_, List.cons_subset.mpr ⟨member, nofun⟩⟩
    exact List.subset_append_of_subset_left _ (within_subset schema inner deeper)
  · rw [List.mem_singleton.mp own]
    exact List.Subset.refl _

def reference? : Schema → Option (String × Location)
  | .reference info target => some (target, info.location)
  | _ => none

def referencesAmong (schemas : List Schema) : List (String × Location) :=
  schemas.filterMap reference?

def references (schema : Schema) : List (String × Location) :=
  referencesAmong schema.nodes

theorem mem_references {schema : Schema} {target : String} {location : Location} :
    (target, location) ∈ schema.references ↔
      ∃ info, .reference info target ∈ schema.nodes ∧ info.location = location := by
  simp only [references, referencesAmong, List.mem_filterMap]
  constructor
  · rintro ⟨node, member, read⟩
    cases node with
    | reference info _ =>
        cases read
        exact ⟨info, member, rfl⟩
    | primitive | enum | object | array | map | untypedMap | union => cases read
  · rintro ⟨info, member, rfl⟩
    exact ⟨_, member, rfl⟩

theorem references_append (left right : List Schema) :
    referencesAmong (left ++ right) =
      referencesAmong left ++ referencesAmong right :=
  List.filterMap_append

private theorem references_own_last {schema : Schema} (schemas : List Schema)
    (other : schema.reference? = none) :
    referencesAmong (schemas ++ [schema]) = referencesAmong schemas := by
  rw [references_append]
  simp [referencesAmong, other]

theorem references_array (info : SchemaInfo) (items : Schema) :
    (array info items).references = items.references :=
  references_own_last items.nodes rfl

theorem references_map (info : SchemaInfo) (values : Schema) :
    (map info values).references = values.references :=
  references_own_last values.nodes rfl

theorem references_object (info : SchemaInfo)
    (properties : List (Property Schema)) :
    (object info properties).references =
      referencesAmong (withinProperties properties) :=
  references_own_last (withinProperties properties) rfl

theorem references_union (info : SchemaInfo) (variants : List Schema) :
    (union info variants).references =
      referencesAmong (withinVariants variants) :=
  references_own_last (withinVariants variants) rfl

theorem references_properties (name : String) (required : Bool) (schema : Schema)
    (rest : List (Property Schema)) :
    referencesAmong (withinProperties (⟨name, required, schema⟩ :: rest)) =
      schema.references ++ referencesAmong (withinProperties rest) := by
  rw [withinProperties, List.append_cons, references_append]
  rfl

theorem references_variants (variant : Schema) (rest : List Schema) :
    referencesAmong (withinVariants (variant :: rest)) =
      variant.references ++ referencesAmong (withinVariants rest) := by
  rw [withinVariants, List.append_cons, references_append]
  rfl

theorem references_withinProperties (properties : List (Property Schema)) :
    referencesAmong (withinProperties properties) =
      (properties.map (·.schema)).flatMap references := by
  rw [withinProperties_eq_flatMap, referencesAmong, List.filterMap_flatMap]
  rfl

theorem references_withinVariants (variants : List Schema) :
    referencesAmong (withinVariants variants) = variants.flatMap references := by
  rw [withinVariants_eq_flatMap, referencesAmong, List.filterMap_flatMap]
  rfl

theorem references_wrappedBy (docs : Docs) (nullable : Bool) (schema : Schema) :
    (schema.wrappedBy docs nullable).references = schema.references := by
  rw [wrappedBy]
  cases schema with
  | reference | primitive | enum | untypedMap => rfl
  | array => rw [withInfo, references_array, references_array]
  | map => rw [withInfo, references_map, references_map]
  | object => rw [withInfo, references_object, references_object]
  | union => rw [withInfo, references_union, references_union]

end Schema

def SchemaInfo.bare (info : SchemaInfo) : SchemaInfo :=
  ⟨info.nullable, .empty, .root⟩

namespace Schema

mutual
/-- A schema without documentation and locations. -/
def bare : Schema → Schema
  | .reference info target => .reference info.bare target
  | .primitive info kind => .primitive info.bare kind
  | .enum info values => .enum info.bare values
  | .object info properties => .object info.bare (bareProperties properties)
  | .array info items => .array info.bare items.bare
  | .map info values => .map info.bare values.bare
  | .untypedMap info => .untypedMap info.bare
  | .union info variants => .union info.bare (bareVariants variants)

def bareProperties : List (Property Schema) → List (Property Schema)
  | [] => []
  | ⟨name, required, schema⟩ :: rest =>
      ⟨name, required, schema.bare⟩ :: bareProperties rest

def bareVariants : List Schema → List Schema
  | [] => []
  | variant :: rest => variant.bare :: bareVariants rest
end

end Schema

end Schemata
