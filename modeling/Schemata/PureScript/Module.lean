import Schemata.Emission.DocLines
import Schemata.Emission.Source
import Schemata.PureScript.Declaration
import Schemata.PureScript.Import
import Schemata.Text.Split

namespace Schemata.PureScript

/-! The text of declarations and of the module that holds them. -/

def comment (docs : Docs) : List (List Char) :=
  docs.lines.map (commentLine "-- |".toList)

/-- One line for each part, marked as the first or as a further one. -/
def marked (first further : Char) : List (List Char) → List (List Char)
  | [] => []
  | line :: rest =>
      ("  ".toList ++ first :: ' ' :: line) ::
        rest.map fun line => "  ".toList ++ further :: ' ' :: line

def RecordField.text (field : RecordField) : List Char :=
  field.label.text ++ " :: ".toList ++ field.type

def DataConstructor.text (constructor : DataConstructor) : List Char :=
  constructor.name.toList ++
    match constructor.argument with
    | some argument => ' ' :: argument
    | none => []

/-- A record that may be null stands in parentheses after the type constructor for
nulls. -/
def recordOpening (nullable : Bool) : List Char :=
  if nullable then " (Nullable".toList else []

def recordClosing (nullable : Bool) : List Char :=
  if nullable then "\x7d)".toList else "\x7d".toList

def Body.lines (name : List Char) : Body → List (List Char)
  | newtype nullable fields =>
      let opening := "newtype ".toList ++ name ++ " = ".toList ++ name ++
        recordOpening nullable
      match fields with
      | [] => [opening ++ " \x7b".toList ++ recordClosing nullable]
      | _ =>
          [opening] ++ marked '\x7b' ',' (fields.map (·.text)) ++
            ["  ".toList ++ recordClosing nullable]
  | data constructors =>
      ["data ".toList ++ name] ++ marked '=' '|' (constructors.map (·.text))
  | synonym type => ["type ".toList ++ name ++ " = ".toList ++ type]

def Declaration.text (declaration : Declaration) : List Char :=
  joinLines (comment declaration.docs ++
    declaration.body.lines declaration.name.toList)

def emit (options : EmitOptions) (model : Model) : List SourceDeclaration :=
  (Declaration.ofModel options model).map fun declaration =>
    ⟨declaration.name, declaration.text⟩

def heading (moduleName : String) : List (List Char) :=
  ["-- | This file is auto-generated. Do not edit manually.".toList,
    "module ".toList ++ moduleName.toList ++ " where".toList]

def moduleText (moduleName : String) (imports : List (List Char))
    (declarations : List SourceDeclaration) : List Char :=
  unlines <|
    heading moduleName ++
      (if imports.isEmpty then [] else [] :: imports) ++
      declarations.flatMap fun declaration => [[], declaration.text]

def IsModuleSegment (segment : List Char) : Prop :=
  segment.head?.any Char.isUpper ∧
    segment.all fun char => char.isAlphanum || char == '_'

instance (segment : List Char) : Decidable (IsModuleSegment segment) :=
  inferInstanceAs (Decidable (_ ∧ _))

def moduleSegments (moduleName : String) : List (List Char) :=
  Text.splitWhere (· == '.') moduleName.toList

/-- The source path of a module. A name that is not made of capitalized
identifiers has none. -/
def modulePath? (moduleName : String) : Option String :=
  let segments := moduleSegments moduleName
  if ∀ segment ∈ segments, IsModuleSegment segment then
    some (String.ofList (['/'].intercalate segments ++ ".purs".toList))
  else none

structure InvalidModuleName where
  name : String

def InvalidModuleName.message (error : InvalidModuleName) : String :=
  "invalid module name `" ++ error.name ++ "`"

def modulePath (moduleName : String) : Except InvalidModuleName String :=
  match modulePath? moduleName with
  | some path => .ok path
  | none => .error ⟨moduleName⟩

def standardModuleName : String := "Api.Types"

def generate (options : EmitOptions) (moduleName : String) (model : Model) :
    Except InvalidModuleName SourceFile := do
  let path ← modulePath moduleName
  return ⟨path, moduleText moduleName (importLines options model)
    (emit options model)⟩

end Schemata.PureScript
