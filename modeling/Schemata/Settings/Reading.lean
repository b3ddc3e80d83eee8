import Schemata.Settings.Basic
import Schemata.Yaml.Composition

namespace Schemata.Settings

/-! Reading settings from a YAML text. Scalars are taken as they are written, and
what the text leaves out is standard. -/

/-- The node that is written at a place or that the alias there stands for. -/
private def written? (linked : Yaml.LinkedTree) :
    Yaml.Tree Nat → Option (Yaml.Tree Nat)
  | .aliasOf anchor => linked.target? anchor
  | tree => some tree

private def text? (linked : Yaml.LinkedTree) (tree : Yaml.Tree Nat) :
    Option String := do
  match ← written? linked tree with
  | .scalar _ _ text => some text
  | _ => none

/-- A choice is named by a scalar or by the local tag of a null value. -/
private def choice? (choices : List (String × α)) (linked : Yaml.LinkedTree)
    (tree : Yaml.Tree Nat) : Option α := do
  match ← written? linked tree with
  | .scalar properties plain text =>
      match properties.tag.bind Yaml.localTagName? with
      | some name =>
          if plain && (text.isEmpty || (Yaml.readNull text).isSome) then
            choices.lookup name
          else none
      | none => choices.lookup text
  | _ => none

/-- The named parts of a section. A section without content has none. -/
private def section? (linked : Yaml.LinkedTree) (tree : Yaml.Tree Nat) :
    Option (List (String × Yaml.Tree Nat)) := do
  match ← written? linked tree with
  | .mapping _ entries =>
      entries.mapM fun (key, value) => do return (← text? linked key, value)
  | .scalar _ true "" => some []
  | _ => none

/-- The part with one of a few names, which may come once, or the standard. -/
private def part? (names : List String) (read : Yaml.Tree Nat → Option α)
    (standard : α) (parts : List (String × Yaml.Tree Nat)) : Option α :=
  match parts.filter fun part => names.contains part.1 with
  | [] => some standard
  | [part] => read part.2
  | _ => none

private def enumStyleChoices : List (String × EnumStyle) :=
  [("literal-union", .literalUnion), ("named-enum", .namedEnum)]

private def nullStyleChoices : List (String × NullStyle) :=
  [("optional-field", .optionalField), ("union-with-null", .unionWithNull)]

private def emitOptions? (linked : Yaml.LinkedTree) (tree : Yaml.Tree Nat) :
    Option EmitOptions := do
  let parts ← section? linked tree
  let standard := EmitOptions.standard
  return {
    enumStyle := ← part? ["enum_style", "enumStyle"]
      (choice? enumStyleChoices linked) standard.enumStyle parts
    nullStyle := ← part? ["nullable_representation", "nullableRepresentation"]
      (choice? nullStyleChoices linked) standard.nullStyle parts }

private def moduleName? (linked : Yaml.LinkedTree) (tree : Yaml.Tree Nat) :
    Option String := do
  part? ["module_name", "moduleName"] (text? linked) standard.moduleName
    (← section? linked tree)

def ofTree? (linked : Yaml.LinkedTree) : Option Settings := do
  let parts ← section? linked linked.root
  return {
    input := ← part? ["input"] (text? linked) standard.input parts
    output := ← part? ["output"] (text? linked) standard.output parts
    target := ← part? ["target"] (choice? Target.choices linked) standard.target parts
    emit := ← part? ["emit"] (emitOptions? linked) standard.emit parts
    moduleName :=
      ← part? ["purescript"] (moduleName? linked) standard.moduleName parts }

def parse? (text : String) : Option Settings := do
  match ← Yaml.Tree.parse? text with
  | some tree => ofTree? (← tree.link?)
  | none => some standard

end Schemata.Settings
