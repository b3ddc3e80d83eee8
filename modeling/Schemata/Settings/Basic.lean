import Schemata.Emission.Options
import Schemata.PureScript.Module

namespace Schemata

/-! The settings of a project. -/

inductive Target where
  | typescript
  | purescript
  | all
  deriving DecidableEq

structure Settings where
  input : String
  output : String
  target : Target
  emit : EmitOptions
  moduleName : String
  deriving DecidableEq

def Target.choices : List (String × Target) :=
  [("typescript", .typescript), ("purescript", .purescript), ("all", .all)]

def Target.title : Target → String
  | typescript => "Typescript"
  | purescript => "Purescript"
  | all => "All"

def Target.includesTypeScript : Target → Bool
  | typescript | all => true
  | purescript => false

def Target.includesPureScript : Target → Bool
  | purescript | all => true
  | typescript => false

namespace Settings

def standard : Settings where
  input := "openapi.yaml"
  output := "src/generated"
  target := .typescript
  emit := .standard
  moduleName := PureScript.standardModuleName

def fileName : String := ".typegen.yaml"

def template : String :=
  String.ofList <| unlines <| List.map String.toList
    ["# typegen configuration",
      "input: openapi.yaml",
      "output: src/generated",
      "target: typescript    # typescript | purescript | all",
      "",
      "emit:",
      "  enum_style: literal-union                # literal-union | named-enum",
      "  nullable_representation: optional-field  # optional-field | union-with-null",
      "",
      "purescript:",
      "  module_name: Api.Types"]

end Settings

end Schemata
