import Schemata.Document.YamlNode
import Schemata.Json.Reading
import Schemata.Yaml.Composition

namespace Schemata.Document

/-! Loading a document from its text. -/

/-- A document that names an OpenAPI version must name a third one. -/
def checkVersion (document : Node) : Except LoadError Unit :=
  match document.get? "openapi" with
  | none => .ok ()
  | some version =>
      match version.string? with
      | some text =>
          if ['3', '.'].isPrefixOf text.toList then .ok ()
          else .error (.unsupportedVersion text)
      | none => .error (.unsupportedVersion version.summary)

private def checked (document : Node) : Except LoadError Node := do
  checkVersion document
  return document

def loadJson (text : String) : Except LoadError Node :=
  match Json.parse? Json.documentNesting text with
  | some value => checked (Node.ofJson .root value)
  | none => .error .notJson

def loadYaml (text : String) : Except LoadError Node := do
  match Yaml.Value.parse? text with
  | some value => checked (← Node.ofYaml .root value)
  | none => throw .notYaml

private theorem eq_of_checked {document loaded : Node}
    (passes : checked document = .ok loaded) : document = loaded := by
  rw [checked] at passes
  cases version : checkVersion document <;> rw [version] at passes <;> cases passes
  rfl

theorem ofJson_of_loadJson {text : String} {document : Node}
    (loads : loadJson text = .ok document) :
    ∃ value, document = Node.ofJson .root value := by
  rw [loadJson] at loads
  split at loads
  · exact ⟨_, (eq_of_checked loads).symm⟩
  · cases loads

theorem place_of_loadYaml {text : String} {document : Node}
    (loads : loadYaml text = .ok document) :
    ∃ value, Node.place .root value = .ok document := by
  rw [loadYaml] at loads
  split at loads
  · next value _ =>
    cases placed : Node.ofYaml .root value with
    | error => rw [placed] at loads; cases loads
    | ok node =>
        rw [placed] at loads
        rw [Node.ofYaml, eq_of_checked loads] at placed
        split at placed
        · exact ⟨_, placed⟩
        · cases placed
  · cases loads

end Schemata.Document
