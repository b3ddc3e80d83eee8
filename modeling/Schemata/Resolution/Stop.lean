import Schemata.Resolution.Resolver

namespace Schemata.Resolution

/-! What a walk over a schema meets: anonymous shapes, which are promoted to
declarations of their own, and references. Positions tell the shapes apart, so that the
names can be given before any declaration is written. -/

/-- A place in the forest: a root and the indices that lead down from it. -/
structure Position where
  root : String
  path : List Nat
  deriving DecidableEq

def Position.child (position : Position) (index : Nat) : Position :=
  { position with path := position.path ++ [index] }

/-- An anonymous shape. It is named after the nearest declaration around it and
the way that leads from there. -/
structure Promotion where
  position : Position
  owner : Position
  way : String
  location : Location
  deriving DecidableEq

inductive Stop where
  | promotion (promotion : Promotion)
  | reference (target : String) (location : Location)
  | failure (error : CompileError)

mutual
def inlineStops (owner : Position) (way : String) (position : Position) :
    Schema → List Stop
  | .reference info target => [.reference target info.location]
  | .primitive .. | .untypedMap _ => []
  | .array _ items =>
      inlineStops owner (way ++ itemWay) (position.child 0) items
  | .map _ values =>
      inlineStops owner (way ++ valueWay) (position.child 0) values
  | .enum info _ => [.promotion ⟨position, owner, way, info.location⟩]
  | .object info properties =>
      .promotion ⟨position, owner, way, info.location⟩ ::
        propertyStops position 0 properties
  | .union info variants =>
      .promotion ⟨position, owner, way, info.location⟩ ::
        variantStops position 0 variants

def propertyStops (owner : Position) (index : Nat) :
    List (Property Schema) → List Stop
  | [] => []
  | ⟨name, _, schema⟩ :: rest =>
      inlineStops owner (Text.pascalCase name) (owner.child index) schema ++
        propertyStops owner (index + 1) rest

def variantStops (owner : Position) (index : Nat) :
    List Schema → List Stop
  | [] => []
  | variant :: rest =>
      inlineStops owner (variantWay index) (owner.child index) variant ++
        variantStops owner (index + 1) rest
end

def definitionStops (position : Position) : Schema → List Stop
  | .reference info target => [.reference target info.location]
  | .primitive .. | .untypedMap _ | .enum .. => []
  | .array _ items => inlineStops position itemWay (position.child 0) items
  | .map _ values => inlineStops position valueWay (position.child 0) values
  | .object _ properties => propertyStops position 0 properties
  | .union _ variants => variantStops position 0 variants

end Schemata.Resolution
