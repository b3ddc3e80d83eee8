import Schemata.Document.Location

namespace Schemata

/-! Why a text is not a document. -/

inductive LoadError where
  | notYaml
  | notJson
  | unsupportedVersion (version : String)
  | compositeKey (location : Location)
  | notFinite (location : Location)
  deriving DecidableEq

namespace LoadError

def location? : LoadError → Option Location
  | compositeKey location | notFinite location => some location
  | _ => none

/-- Where a text does not parse, the words of the parser would follow. -/
def message : LoadError → String
  | notYaml => "failed to parse YAML:"
  | notJson => "failed to parse JSON:"
  | unsupportedVersion version => "unsupported OpenAPI version: " ++ version
  | compositeKey location => location.text ++ ": mapping keys must be scalars"
  | notFinite location => location.text ++ ": number is not finite"

end LoadError

end Schemata
