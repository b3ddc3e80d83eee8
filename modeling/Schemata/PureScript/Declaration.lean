import Schemata.Emission.Options
import Schemata.PureScript.Constructor
import Schemata.PureScript.Label

namespace Schemata.PureScript

/-! Type declarations as syntax. -/

structure RecordField where
  label : Label
  type : List Char

structure DataConstructor where
  name : String
  argument : Option (List Char)

inductive Body where
  | newtype (nullable : Bool) (fields : List RecordField)
  | data (constructors : List DataConstructor)
  | synonym (type : List Char)

structure Declaration where
  docs : Docs
  name : String
  body : Body

/-- A value that may be absent is a `Maybe`, and one that may be null a `Nullable`,
unless null is written as absence. -/
def fieldType (options : EmitOptions) (field : Field) : List Char :=
  let type := typeText field.type
  match options.nullStyle with
  | .optionalField =>
      if !field.required || field.nullable then maybeText type else type
  | .unionWithNull =>
      let type := if field.nullable then nullableText type else type
      if field.required then type else maybeText type

def recordFields (options : EmitOptions) (fields : List Field) :
    List RecordField :=
  List.zipWith (fun label field => ⟨label, fieldType options field⟩)
    (Label.ofNames (fields.map (·.name))) fields

/-- The arguments of the constructors of a definition. A constructor beyond them
stands for null. -/
def constructorArguments : Definition → List (List Char)
  | .union variants => variants.map fun variant => argument (typeText variant)
  | _ => []

def dataConstructors (names : List String) (arguments : List (List Char)) :
    List DataConstructor :=
  names.mapIdx fun index name => ⟨name, arguments[index]?⟩

/-- `names` are those of the constructors of the declaration. -/
def bodyOf (options : EmitOptions) (nullable : Bool) (names : List String)
    (definition : Definition) : Body :=
  let synonym (type : List Char) : Body :=
    .synonym (if nullable then nullableText type else type)
  match definition with
  | .object fields => .newtype nullable (recordFields options fields)
  | .enum _ | .union _ =>
      .data (dataConstructors names (constructorArguments definition))
  | .primitive kind => synonym (primitiveText kind)
  | .array element => synonym (typeText (.array element))
  | .map values => synonym (typeText (.map values))
  | .untypedMap => synonym (typeText .untypedMap)
  | .reference target => synonym (typeText target)

/-- Declarations take their constructor names one after the other. -/
def Declaration.ofModelFrom (options : EmitOptions)
    (constructors : Constructors) :
    List Schemata.Declaration → List Declaration
  | [] => []
  | declaration :: rest =>
      let (names, constructors) :=
        constructors.claimAll (constructorRequests declaration)
      { docs := declaration.docs
        name := declaration.name
        body := bodyOf options declaration.nullable names declaration.definition } ::
        Declaration.ofModelFrom options constructors rest

def Declaration.ofModel (options : EmitOptions) (model : Model) :
    List Declaration :=
  Declaration.ofModelFrom options (.ofModel model) model.declarations

end Schemata.PureScript
