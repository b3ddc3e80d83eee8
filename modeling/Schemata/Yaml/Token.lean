import Schemata.Yaml.Tag

namespace Schemata.Yaml

/-! The tokens of a YAML text. Indentation is made explicit by the tokens that
open and close blocks. -/

inductive Token where
  | versionDirective (major minor : Nat)
  | tagDirective (handle stem : List Char)
  | documentStart
  | documentEnd
  | blockSequenceStart
  | blockMappingStart
  | blockEnd
  | flowSequenceStart
  | flowSequenceEnd
  | flowMappingStart
  | flowMappingEnd
  | blockEntry
  | flowEntry
  | key
  | value
  | aliasOf (name : List Char)
  | anchor (name : List Char)
  | tag (tag : TagToken)
  | scalar (plain : Bool) (text : List Char)
  deriving DecidableEq

end Schemata.Yaml
