import Schemata.Emission.DocLines
import Schemata.Emission.Options
import Schemata.Model.Basic
import Schemata.Naming.Suffix
import Schemata.Naming.ValueName
import Schemata.TypeScript.TypeText

namespace Schemata.TypeScript

/-! Type declarations as syntax. -/

structure Property where
  docs : List (List Char)
  key : List Char
  optional : Bool
  type : List Char

structure EnumMember where
  name : String
  value : Literal

inductive Body where
  | object (nullable : Bool) (properties : List Property)
  | enum (members : List EnumMember)
  /-- A type with its alternatives in order. -/
  | typeAlias (alternatives : List (List Char))

structure Declaration where
  docs : List (List Char)
  name : String
  body : Body

/-- The end of a comment loses its meaning behind a backslash. -/
def escapeComment : List Char → List Char
  | '*' :: '/' :: rest => '*' :: '\\' :: '/' :: escapeComment rest
  | char :: rest => char :: escapeComment rest
  | [] => []

def docLines (docs : Docs) : List (List Char) :=
  docs.lines.map escapeComment

def signature (options : EmitOptions) (field : Field) : Bool × List Char :=
  let type := typeText field.type
  if field.nullable then
    match options.nullStyle with
    | .optionalField => (true, type)
    | .unionWithNull => (!field.required, orNull type)
  else (!field.required, type)

def property (options : EmitOptions) (field : Field) : Property :=
  let (optional, type) := signature options field
  { docs := docLines field.docs
    key := propertyKey field.name.toList
    optional
    type }

def summaryLine (options : EmitOptions) (field : Field) : List Char :=
  let type := (signature options field).2
  let headline := field.docs.headline
  escapeComment <|
    "@property (".toList ++ type ++ ") ".toList ++ field.name.toList ++
      if headline.isEmpty then [] else " - ".toList ++ headline

/-- Members are named after their values, with a number where a name is taken. -/
def enumMembers : List Literal → List EnumMember :=
  go []
where
  go (used : List String) : List Literal → List EnumMember
    | [] => []
    | value :: rest =>
        let preferred := value.valueName
        let name :=
          if preferred ∈ used then freeSuffixed used preferred else preferred
        ⟨name, value⟩ :: go (name :: used) rest

def literalAlternatives (values : List Literal) : List (List Char) :=
  values.map (·.text.toList)

def withNull (nullable : Bool) (alternatives : List (List Char)) :
    List (List Char) :=
  if nullable then alternatives ++ ["null".toList] else alternatives

/-- Enumerations of one kind may have members. -/
def HasMembers (options : EmitOptions) (values : List Literal) : Prop :=
  options.enumStyle = .namedEnum ∧
    (literalKinds values = [.string] ∨ literalKinds values = [.number])

instance (options : EmitOptions) (values : List Literal) :
    Decidable (HasMembers options values) :=
  inferInstanceAs (Decidable (_ ∧ (_ ∨ _)))

def bodyOf (options : EmitOptions) (nullable : Bool) : Definition → Body
  | .object fields => .object nullable (fields.map (property options))
  | .enum values =>
      -- A null value already makes an enumeration nullable.
      let nullable := nullable && values.all (· ≠ .null)
      if HasMembers options values ∧ ¬nullable then .enum (enumMembers values)
      else .typeAlias (withNull nullable (literalAlternatives values))
  | .union variants => .typeAlias (withNull nullable (variants.map typeText))
  | .primitive kind => .typeAlias (withNull nullable [primitiveText kind])
  | .array element => .typeAlias (withNull nullable [typeText (.array element)])
  | .map values => .typeAlias (withNull nullable [typeText (.map values)])
  | .untypedMap => .typeAlias (withNull nullable [typeText .untypedMap])
  | .reference target => .typeAlias (withNull nullable [typeText target])

def Declaration.ofModel (options : EmitOptions)
    (declaration : Schemata.Declaration) : Declaration where
  docs :=
    docLines declaration.docs ++
      match declaration.definition with
      | .object fields => fields.map (summaryLine options)
      | _ => []
  name := declaration.name
  body := bodyOf options declaration.nullable declaration.definition

end Schemata.TypeScript
