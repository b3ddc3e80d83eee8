import Schemata.Resolution.Stop

namespace Schemata.Resolution

/-! The declarations of one root once all names are known: those of the anonymous shapes
in it, each after the ones inside it, and the declaration of the root itself. -/

section

variable (nameOf : Position → String)

mutual
/-- The type of a schema in type position. Whether it is nullable is left to
the context. -/
def inlineType (position : Position) : Schema → Declared TypeRef
  | .reference _ target => .alone (.named (typeName target))
  | .primitive _ kind => .alone (.primitive kind)
  | .untypedMap _ => .alone .untypedMap
  | .array _ items =>
      (inlineType (position.child 0) items).map fun type =>
        .array (elementType items type)
  | .map _ values =>
      (inlineType (position.child 0) values).map fun type =>
        .map (elementType values type)
  | .enum info values =>
      promoteAs (nameOf position) (.enum info values) (.alone (.enum values))
  | .object info properties =>
      promoteAs (nameOf position) (.object info properties)
        ((fieldsOf position 0 properties).map .object)
  | .union info variants =>
      promoteAs (nameOf position) (.union info variants)
        ((variantTypes position 0 variants).map .union)

def fieldsOf (owner : Position) (index : Nat) :
    List (Property Schema) → Declared (List Field)
  | [] => .alone []
  | ⟨name, required, schema⟩ :: rest =>
      .combine (fun type later => fieldOf ⟨name, required, schema⟩ type :: later)
        (inlineType (owner.child index) schema) (fieldsOf owner (index + 1) rest)

def variantTypes (owner : Position) (index : Nat) :
    List Schema → Declared (List TypeRef)
  | [] => .alone []
  | variant :: rest =>
      .combine (fun type later => elementType variant type :: later)
        (inlineType (owner.child index) variant) (variantTypes owner (index + 1) rest)
end

def definitionOf (position : Position) : Schema → Declared Definition
  | .reference _ target => .alone (.reference (.named (typeName target)))
  | .primitive _ kind => .alone (.primitive kind)
  | .untypedMap _ => .alone .untypedMap
  | .enum _ values => .alone (.enum values)
  | .array _ items =>
      (inlineType nameOf (position.child 0) items).map fun type =>
        .array (elementType items type)
  | .map _ values =>
      (inlineType nameOf (position.child 0) values).map fun type =>
        .map (elementType values type)
  | .object _ properties => (fieldsOf nameOf position 0 properties).map .object
  | .union _ variants => (variantTypes nameOf position 0 variants).map .union

def block (root : String) (schema : Schema) : List Declaration :=
  let position : Position := ⟨root, []⟩
  declareAs (nameOf position) schema (definitionOf nameOf position schema)

end

end Schemata.Resolution
