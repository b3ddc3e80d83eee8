import Schemata.CompileError
import Schemata.Model.Declaration
import Schemata.Naming.Registry
import Schemata.Naming.TypeName
import Schemata.Schema.Basic

namespace Schemata.Resolution

/-! Resolution of a forest. Roots are visited depth first in their order. A reference to a
root that is in progress is a back edge, so cycles never recurse. What a root declares is
put in a slot of its own, so the order of the declarations does not depend on the order of
the visits. -/

/-- A type expression or a definition, with the declarations it needs. -/
structure Declared (α : Type) where
  result : α
  promoted : List Declaration

namespace Declared

variable {α β γ : Type}

def alone (result : α) : Declared α := ⟨result, []⟩

def map (next : α → β) (declared : Declared α) : Declared β :=
  ⟨next declared.result, declared.promoted⟩

def combine (next : α → β → γ) (first : Declared α) (second : Declared β) : Declared γ :=
  ⟨next first.result second.result, first.promoted ++ second.promoted⟩

@[simp] theorem result_alone (result : α) : (alone result).result = result := rfl

@[simp] theorem result_map (next : α → β) (declared : Declared α) :
    (declared.map next).result = next declared.result := rfl

@[simp] theorem result_combine (next : α → β → γ) (first : Declared α)
    (second : Declared β) :
    (combine next first second).result = next first.result second.result := rfl

end Declared

/-- Of the documentation of a promoted shape, example and format describe the
place where it stands. -/
def promotedDocs (docs : Docs) : Docs :=
  { Docs.empty with description := docs.description }

def fieldOf (property : Property Schema) (type : TypeRef) : Field where
  name := property.name
  type
  required := property.required
  nullable := property.schema.nullable
  docs := property.schema.docs

def elementType (schema : Schema) (type : TypeRef) : TypeRef :=
  if schema.nullable then .nullable type else type

/-- The type of an anonymous shape, which is declared after the shapes inside it. -/
def promoteAs (name : String) (schema : Schema) (definition : Declared Definition) :
    Declared TypeRef :=
  let declaration : Declaration :=
    { name
      definition := definition.result
      nullable := false
      docs := promotedDocs schema.docs
      location := schema.location }
  ⟨.named name, definition.promoted ++ [declaration]⟩

/-- The declarations of a root, its own after the others. -/
def declareAs (name : String) (schema : Schema) (definition : Declared Definition) :
    List Declaration :=
  let declaration : Declaration :=
    { name
      definition := definition.result
      nullable := schema.nullable
      docs := schema.docs
      location := schema.location }
  definition.promoted ++ [declaration]

def itemWay : String := "Item"

def valueWay : String := "Value"

def variantWay (index : Nat) : String :=
  "Variant" ++ String.ofList (naturalText (index + 1))

/-- Follows a chain of roots that are references. The result is the target at
which the chain meets a root for the second time. -/
def aliasCycle? (forest : Forest) : (bound : Nat) → (seen : List String) →
    String → Option String
  | 0, _, _ => none
  | bound + 1, seen, root =>
      match forest.roots.lookup root with
      | some (.reference _ target) =>
          if root ∈ seen then some target
          else aliasCycle? forest bound (root :: seen) target
      | _ => none

inductive Visit where
  | pending
  | inProgress
  | done
  deriving DecidableEq

structure Resolver where
  registry : Registry
  states : String → Visit
  /-- The declarations of every root that is done. -/
  slots : String → List Declaration

abbrev Run := StateT Resolver (Except CompileError)

namespace Resolver

def enter (root : String) (resolver : Resolver) : Resolver :=
  { resolver with
    states := fun other => if other = root then .inProgress else resolver.states other }

def finish (root : String) (declarations : List Declaration) (resolver : Resolver) :
    Resolver :=
  { resolver with
    states := fun other => if other = root then .done else resolver.states other
    slots := fun other => if other = root then declarations else resolver.slots other }

def synthesize (context : String) (location : Location) : Run String := do
  let resolver ← get
  let (name, registry) ← resolver.registry.synthesize (typeName context) location
  set { resolver with registry }
  return name

section

variable (forest : Forest) (visit : String → Schema → Run Unit)

def reference (target : String) (location : Location) : Run TypeRef := do
  match forest.roots.lookup target with
  | none => throw (.unresolvedReference location target)
  | some schema =>
      visit target schema
      return .named (typeName target)

mutual
/-- The type of a schema in type position. Whether it is nullable is left to
the context. -/
def inline (context : String) : Schema → Run (Declared TypeRef)
  | .reference info target => do
      let type ← reference forest visit target info.location
      return .alone type
  | .primitive _ kind => return .alone (.primitive kind)
  | .untypedMap _ => return .alone .untypedMap
  | .array _ items => do
      let element ← inline (context ++ itemWay) items
      return element.map fun type => .array (elementType items type)
  | .map _ values => do
      let value ← inline (context ++ valueWay) values
      return value.map fun type => .map (elementType values type)
  | .enum info values => do
      let name ← synthesize context info.location
      return promoteAs name (.enum info values) (.alone (.enum values))
  | .object info properties => do
      let name ← synthesize context info.location
      let inner ← fields name properties
      return promoteAs name (.object info properties) (inner.map .object)
  | .union info members => do
      let name ← synthesize context info.location
      let inner ← variants name 0 members
      return promoteAs name (.union info members) (inner.map .union)

def fields (owner : String) : List (Property Schema) → Run (Declared (List Field))
  | [] => return .alone []
  | ⟨name, required, schema⟩ :: rest => do
      let type ← inline (owner ++ Text.pascalCase name) schema
      let more ← fields owner rest
      return .combine (fun type later => fieldOf ⟨name, required, schema⟩ type :: later)
        type more

def variants (owner : String) (index : Nat) : List Schema → Run (Declared (List TypeRef))
  | [] => return .alone []
  | variant :: rest => do
      let type ← inline (owner ++ variantWay index) variant
      let more ← variants owner (index + 1) rest
      return .combine (fun type later => elementType variant type :: later) type more
end

def definition (name : String) : Schema → Run (Declared Definition)
  | .reference info target => do
      let type ← reference forest visit target info.location
      return .alone (.reference type)
  | .primitive _ kind => return .alone (.primitive kind)
  | .untypedMap _ => return .alone .untypedMap
  | .enum _ values => return .alone (.enum values)
  | .array _ items => do
      let element ← inline forest visit (name ++ itemWay) items
      return element.map fun type => .array (elementType items type)
  | .map _ values => do
      let value ← inline forest visit (name ++ valueWay) values
      return value.map fun type => .map (elementType values type)
  | .object _ properties => do
      let inner ← fields forest visit name properties
      return inner.map .object
  | .union _ members => do
      let inner ← variants forest visit name 0 members
      return inner.map .union

end

/-- A root that is a reference must lead to another shape in the end. -/
def checkAlias (forest : Forest) (root : String) : Schema → Run Unit
  | .reference info _ =>
      match aliasCycle? forest (forest.roots.length + 1) [] root with
      | some target => throw (.malformed info.location (.aliasCycle target))
      | none => return
  | _ => return

def rootDefinition (forest : Forest) (visit : String → Schema → Run Unit)
    (root : String) (schema : Schema) : Run (Declared Definition) := do
  checkAlias forest root schema
  definition forest visit (typeName root) schema

/-- Visits a root, unless that has been done or is being done. At most `bound` visits lie
inside each other. -/
def visitRoot (forest : Forest) : (bound : Nat) → (root : String) → Schema → Run Unit
  | 0, _, _ => return
  | bound + 1, root, schema => do
      if (← get).states root = .pending then
        modify (enter root)
        let made ← rootDefinition forest (visitRoot forest bound) root schema
        modify (finish root (declareAs (typeName root) schema made))

def claimRoot (registry : Registry) (root : String × Schema) :
    Except CompileError Registry := do
  let (_, registry) ← registry.claim (typeName root.1) root.2.location
  return registry

/-- Declared names are claimed first, so that a name made up for a shape never takes the
place of one. -/
def claimAll (forest : Forest) : Except CompileError Registry :=
  forest.roots.foldlM claimRoot .empty

def start (registry : Registry) : Resolver where
  registry
  states := fun _ => .pending
  slots := fun _ => []

def visitAll (forest : Forest) : Run Unit :=
  forest.roots.forM fun (root, schema) =>
    visitRoot forest forest.roots.length root schema

end Resolver

/-- The declarations in the order of the roots, whatever the walk met first. -/
def declarations (forest : Forest) : Except CompileError (List Declaration) := do
  let registry ← Resolver.claimAll forest
  let (_, resolver) ← (Resolver.visitAll forest).run (.start registry)
  return forest.roots.flatMap fun (root, _) => resolver.slots root

end Schemata.Resolution
