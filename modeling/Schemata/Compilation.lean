import Schemata.Document.Loading
import Schemata.Resolution.Basic
import Schemata.Schema.Forest

namespace Schemata

/-! From a document to its model. -/

def compile (document : Node) : Except CompileError Model := do
  (← Forest.ofDocument document).resolve

def compileJson (text : String) : Except CompileError Model := do
  compile (← (Document.loadJson text).mapError .load)

def compileYaml (text : String) : Except CompileError Model := do
  compile (← (Document.loadYaml text).mapError .load)

end Schemata
