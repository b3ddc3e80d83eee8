import Mathlib.Data.List.Flatten
import Schemata.Proofs.Schema.Nodes

namespace Schemata

/-! How a schema is put together from the schemas of the nodes below its own, and the
places of the schemas inside it. -/

namespace Schema

/-- Primitive schemas may come from a list of types, whose members share one place. -/
def HasPlace : Schema → Prop
  | primitive .. => False
  | _ => True

instance : (schema : Schema) → Decidable schema.HasPlace
  | primitive .. => .isFalse id
  | reference .. | enum .. | object .. | array .. | map .. | untypedMap ..
  | union .. => .isTrue trivial

theorem NeedsName.hasPlace : {schema : Schema} → schema.NeedsName → schema.HasPlace
  | object .., _ | enum .., _ | union .., _ => trivial

def placesAmong (schemas : List Schema) : List Location :=
  (schemas.filter (·.HasPlace)).map location

@[simp] theorem placesAmong_append (left right : List Schema) :
    placesAmong (left ++ right) = placesAmong left ++ placesAmong right := by
  simp [placesAmong]

/-- The places of the schemas inside a schema that have one, and last its own. -/
def places (schema : Schema) : List Location :=
  placesAmong schema.within ++ [schema.location]

theorem placesAmong_nodes (schema : Schema) :
    (placesAmong schema.nodes).Sublist schema.places := by
  rw [nodes, places, placesAmong_append]
  apply List.Sublist.append_left
  exact List.filter_sublist.map location

theorem placesAmong_flatMap (schemas : List Schema) :
    (placesAmong (schemas.flatMap nodes)).Sublist (schemas.flatMap places) := by
  rw [placesAmong, List.filter_flatMap, List.map_flatMap]
  apply List.Sublist.flatMap_right
  intro schema _
  exact placesAmong_nodes schema

theorem places_wrappedBy (docs : Docs) (nullable : Bool) (schema : Schema) :
    (schema.wrappedBy docs nullable).places = schema.places := by
  cases schema <;> rfl

theorem withinVariants_primitives (info : SchemaInfo) (kinds : List Primitive) :
    withinVariants (kinds.map (primitive info)) = kinds.map (primitive info) := by
  induction kinds with
  | nil => rfl
  | cons kind rest induction =>
      rw [List.map_cons, withinVariants, induction]
      rfl

theorem placesAmong_primitives (info : SchemaInfo) (kinds : List Primitive) :
    placesAmong (kinds.map (primitive info)) = [] := by
  rw [placesAmong, List.filter_eq_nil_iff.mpr, List.map_nil]
  intro schema member
  obtain ⟨kind, _, rfl⟩ := List.mem_map.mp member
  exact Bool.false_ne_true

/-- A schema against the schemas of its parts. The members of a list of types are not read
from parts, and a wrapper around a single schema has no place of its own. -/
inductive Composes (location : Location) : List Schema → Schema → Prop
  | alone {schema : Schema} (here : schema.location = location)
      (bare : schema.within = []) (silent : schema.references = []) :
      Composes location [] schema
  | types {info : SchemaInfo} (here : info.location = location) (shared : SchemaInfo)
      (kinds : List Primitive) :
      Composes location [] (.union info (kinds.map (primitive shared)))
  | array {info : SchemaInfo} (here : info.location = location) (items : Schema) :
      Composes location [items] (.array info items)
  | map {info : SchemaInfo} (here : info.location = location) (values : Schema) :
      Composes location [values] (.map info values)
  | object {info : SchemaInfo} (here : info.location = location)
      (properties : List (Property Schema)) :
      Composes location (properties.map (·.schema)) (.object info properties)
  | union {info : SchemaInfo} (here : info.location = location) (variants : List Schema) :
      Composes location variants (.union info variants)
  | wrapped (docs : Docs) (nullable : Bool) (schema : Schema) :
      Composes location [schema] (schema.wrappedBy docs nullable)

namespace Composes

variable {location : Location} {inner : List Schema} {schema : Schema}

theorem references (composes : Composes location inner schema) :
    schema.references = inner.flatMap Schema.references := by
  cases composes with
  | alone _ _ silent => exact silent
  | types _ shared kinds =>
      rw [references_union, withinVariants_primitives]
      simp [referencesAmong, Function.comp_def, reference?]
  | array _ items => rw [references_array, List.flatMap_singleton]
  | map _ values => rw [references_map, List.flatMap_singleton]
  | object _ properties => rw [references_object, references_withinProperties]
  | union => rw [references_union, references_withinVariants]
  | wrapped docs nullable schema => rw [references_wrappedBy, List.flatMap_singleton]

theorem places (composes : Composes location inner schema) :
    schema.places.Sublist (inner.flatMap Schema.places ++ [location]) := by
  cases composes with
  | alone here bare =>
      rw [Schema.places, bare, here]
      exact List.Sublist.refl _
  | types here shared kinds =>
      rw [Schema.places, within, withinVariants_primitives, placesAmong_primitives, ← here]
      exact List.Sublist.refl _
  | array here items | map here items =>
      rw [List.flatMap_singleton, ← here]
      exact (placesAmong_nodes items).append_right _
  | object here properties =>
      rw [← here, Schema.places, within, withinProperties_eq_flatMap]
      exact (placesAmong_flatMap _).append_right _
  | union here =>
      rw [← here, Schema.places, within, withinVariants_eq_flatMap]
      exact (placesAmong_flatMap _).append_right _
  | wrapped docs nullable schema =>
      rw [places_wrappedBy, List.flatMap_singleton]
      exact List.sublist_append_left _ _

end Composes

end Schema

end Schemata
