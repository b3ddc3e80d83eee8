import Schemata.Json.Basic
import Schemata.Model.Basic

namespace Schemata

/-! Overviews of a model. -/

private def strings (texts : List String) : Json :=
  .array (texts.map .string)

private def count (value : Nat) : Json :=
  .number (.integer value)

private def Definition.parts : Definition → List (String × Json)
  | .object fields => [("fields", strings (fields.map (·.name)))]
  | .enum values => [("values", strings (values.map (·.text)))]
  | _ => []

/-- What a summary tells of a declaration. Every mentioned name is listed once. -/
def Declaration.summary (declaration : Declaration) : Json :=
  .object <|
    [("name", .string declaration.name),
      ("kind", .string declaration.definition.kindName),
      ("location", .string declaration.location.text),
      ("references", strings declaration.definition.names.eraseDups)] ++
    declaration.definition.parts

namespace Model

def summary (model : Model) : List (String × Json) :=
  [("count", count model.size),
    ("types", .array (model.declarations.map (·.summary)))]

/-- How many declarations there are of each kind, in the order in which the kinds
first occur. -/
def kindCounts (model : Model) : List (String × Nat) :=
  let kinds := model.declarations.map fun declaration =>
    declaration.definition.kindName
  kinds.eraseDups.map fun kind => (kind, kinds.count kind)

end Model

end Schemata
