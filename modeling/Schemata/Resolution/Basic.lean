import Schemata.Model.Basic
import Schemata.Resolution.Resolver

namespace Schemata

/-! From the schemas of a forest to the model. -/

def Forest.resolve (forest : Forest) : Except CompileError Model := do
  return .ofDeclarations (← Resolution.declarations forest)

end Schemata
