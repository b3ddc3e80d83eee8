import Schemata.Naming.Registry
import Schemata.Naming.TypeName
import Schemata.Resolution.Walk

namespace Schemata.Resolution

/-! The names of all declarations. Declared names come first, so that a name made
up for a shape never takes the place of one. -/

structure Assignment where
  registry : Registry
  names : List (Position × String)

namespace Assignment

def empty : Assignment := ⟨.empty, []⟩

def nameOf (assignment : Assignment) (position : Position) : String :=
  (assignment.names.lookup position).getD ""

def declare (assignment : Assignment) (root : String) (schema : Schema) :
    Except CompileError Assignment := do
  let (name, registry) ←
    assignment.registry.claim (typeName root) schema.location
  return ⟨registry, (⟨root, []⟩, name) :: assignment.names⟩

def promote (assignment : Assignment) (promotion : Promotion) :
    Except CompileError Assignment := do
  let context := assignment.nameOf promotion.owner ++ promotion.way
  let (name, registry) ←
    assignment.registry.synthesize (typeName context) promotion.location
  return ⟨registry, (promotion.position, name) :: assignment.names⟩

def ofForest (forest : Forest) : Except CompileError Assignment := do
  let declared ← forest.roots.foldlM
    (fun assignment (root, schema) => assignment.declare root schema) empty
  (promotions forest).foldlM
    (fun assignment event => do assignment.promote (← event)) declared

end Assignment

end Schemata.Resolution
