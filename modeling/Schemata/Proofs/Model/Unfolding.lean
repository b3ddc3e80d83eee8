import Schemata.Model.Basic
import Schemata.Naming.TypeName
import Schemata.Proofs.Schema.Nodes

namespace Schemata

/-! Reading a model back as schemas. A name that belongs to a root is a reference to
it, any other name stands for the shape declared under it, and null is read from where
it is carried: the outermost layer of an element, a field, or a declaration. -/

namespace Unfolding

def plainInfo (nullable : Bool) : SchemaInfo :=
  ⟨nullable, .empty, .root⟩

section

variable (named : String → Bool → Option Schema)

/-- The schema of a type. Whether it is nullable is known from the context. -/
def typeSchema (nullable : Bool) : TypeRef → Option Schema
  | .primitive kind => some (.primitive (plainInfo nullable) kind)
  | .named name => named name nullable
  | .untypedMap => some (.untypedMap (plainInfo nullable))
  | .array (.nullable inner) =>
      (typeSchema true inner).map (.array (plainInfo nullable))
  | .array element => (typeSchema false element).map (.array (plainInfo nullable))
  | .map (.nullable inner) =>
      (typeSchema true inner).map (.map (plainInfo nullable))
  | .map values => (typeSchema false values).map (.map (plainInfo nullable))
  | .nullable _ => none

def elementSchema : TypeRef → Option Schema
  | .nullable inner => typeSchema named true inner
  | element => typeSchema named false element

def fieldProperty (field : Field) : Option (Property Schema) :=
  (typeSchema named field.nullable field.type).map
    (Property.mk field.name field.required)

def definitionSchema (nullable : Bool) : Definition → Option Schema
  | .primitive kind => some (.primitive (plainInfo nullable) kind)
  | .enum values => some (.enum (plainInfo nullable) values)
  | .untypedMap => some (.untypedMap (plainInfo nullable))
  | .array element =>
      (elementSchema named element).map (.array (plainInfo nullable))
  | .map values => (elementSchema named values).map (.map (plainInfo nullable))
  | .object fields =>
      (fields.mapM (fieldProperty named)).map (.object (plainInfo nullable))
  | .union variants =>
      (variants.mapM (elementSchema named)).map (.union (plainInfo nullable))
  | .reference target => typeSchema named nullable target

end

def rootNamed? (roots : List String) (name : String) : Option String :=
  roots.find? (typeName · = name)

/-- What a name stands for, through at most so many declarations. -/
def namedSchema (roots : List String) (model : Model) :
    (depth : Nat) → String → Bool → Option Schema
  | 0, name, nullable =>
      (rootNamed? roots name).map (.reference (plainInfo nullable))
  | depth + 1, name, nullable =>
      match rootNamed? roots name with
      | some root => some (.reference (plainInfo nullable) root)
      | none => do
          let declaration ← model.get? name
          definitionSchema (namedSchema roots model depth)
            (nullable || declaration.nullable) declaration.definition

def rootSchema (roots : List String) (model : Model) (root : String) :
    Option (String × Schema) := do
  let declaration ← model.get? (typeName root)
  let schema ← definitionSchema (namedSchema roots model model.size)
    declaration.nullable declaration.definition
  return (root, schema)

end Unfolding

def Model.unfold (model : Model) (roots : List String) :
    Option (List (String × Schema)) :=
  roots.mapM (Unfolding.rootSchema roots model)

def Forest.bare (forest : Forest) : List (String × Schema) :=
  forest.roots.map fun root => (root.1, root.2.bare)

/-- No null but as the outermost layer of an element. -/
def TypeRef.NullOnElements : TypeRef → Prop
  | .primitive _ | .named _ | .untypedMap => True
  | .array (.nullable inner) | .map (.nullable inner) => inner.NullOnElements
  | .array element | .map element => element.NullOnElements
  | .nullable _ => False

def TypeRef.NullOutermost : TypeRef → Prop
  | .nullable inner => inner.NullOnElements
  | element => element.NullOnElements

def Definition.NullOnElements : Definition → Prop
  | .primitive _ | .enum _ | .untypedMap => True
  | .object fields => ∀ field ∈ fields, field.type.NullOnElements
  | .array element | .map element => element.NullOutermost
  | .union variants => ∀ variant ∈ variants, variant.NullOutermost
  | .reference target => target.NullOnElements

namespace Unfolding

section

variable (named : String → Bool → Option Schema)

theorem typeSchema_array (nullable : Bool) (element : TypeRef) :
    typeSchema named nullable (.array element) =
      (elementSchema named element).map (.array (plainInfo nullable)) := by
  cases element <;> rfl

theorem typeSchema_map (nullable : Bool) (values : TypeRef) :
    typeSchema named nullable (.map values) =
      (elementSchema named values).map (.map (plainInfo nullable)) := by
  cases values <;> rfl

end

theorem rootNamed?_eq_none_iff {roots : List String} {name : String} :
    rootNamed? roots name = none ↔ ∀ root ∈ roots, typeName root ≠ name := by
  simp only [rootNamed?, List.find?_eq_none, decide_eq_true_eq]

theorem rootNamed?_typeName {roots : List String} {root : String}
    (declared : root ∈ roots)
    (distinct : ∀ other ∈ roots, typeName other = typeName root → other = root) :
    rootNamed? roots (typeName root) = some root := by
  cases found : rootNamed? roots (typeName root) with
  | none => exact absurd rfl (rootNamed?_eq_none_iff.mp found root declared)
  | some other =>
      have same : typeName other = typeName root := by
        simpa using List.find?_some found
      exact congrArg some
        (distinct other (List.mem_of_find?_eq_some found) same)

end Unfolding

theorem TypeRef.NullOnElements.outermost {type : TypeRef}
    (placed : type.NullOnElements) : type.NullOutermost := by
  cases type with
  | nullable inner => exact placed.elim
  | primitive | named | array | map | untypedMap => exact placed

theorem TypeRef.nullOnElements_array {element : TypeRef} :
    (TypeRef.array element).NullOnElements ↔ element.NullOutermost := by
  cases element <;> exact Iff.rfl

theorem TypeRef.nullOnElements_map {values : TypeRef} :
    (TypeRef.map values).NullOnElements ↔ values.NullOutermost := by
  cases values <;> exact Iff.rfl

end Schemata
