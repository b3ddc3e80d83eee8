import Schemata.CompileError
import Schemata.Naming.Suffix

namespace Schemata

/-! The type names in use during one compilation, each with the place of its
owner. -/

structure Registry where
  /-- The latest name comes first. -/
  assigned : List (String × Location)

namespace Registry

def empty : Registry := ⟨[]⟩

def owner? (registry : Registry) (name : String) : Option Location :=
  registry.assigned.lookup name

def size (registry : Registry) : Nat :=
  registry.assigned.length

def isEmpty (registry : Registry) : Bool :=
  registry.assigned.isEmpty

def add (registry : Registry) (name : String) (location : Location) :
    Registry :=
  ⟨(name, location) :: registry.assigned⟩

def claim (registry : Registry) (name : String) (location : Location) :
    Except CompileError (String × Registry) :=
  match registry.owner? name with
  | some existing => .error (.nameCollision location name existing)
  | none => .ok (name, registry.add name location)

/-- The greatest number that is put after a name in use. -/
def lastSuffix : Nat := 999

def candidates (base : String) : List String :=
  (List.range' 2 (lastSuffix - 1)).map (suffixed base)

/-- Takes a name for a shape without one: the base, or else the base with the
least number that makes it free. -/
def synthesize (registry : Registry) (base : String) (location : Location) :
    Except CompileError (String × Registry) :=
  match registry.owner? base with
  | none => .ok (base, registry.add base location)
  | some existing =>
      match (candidates base).find? fun name => (registry.owner? name).isNone with
      | some name => .ok (name, registry.add name location)
      | none => .error (.nameCollision location base existing)

end Registry

end Schemata
