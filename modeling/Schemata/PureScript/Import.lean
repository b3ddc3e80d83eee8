import Schemata.Emission.Options
import Schemata.Model.Basic

namespace Schemata.PureScript

/-! Imports of the types that a module does not declare. -/

inductive ImportedType where
  | maybe
  | nullable
  | foreign
  | object
  | blob
  deriving DecidableEq

namespace ImportedType

/-- In the order of their import lines. -/
def all : List ImportedType := [maybe, nullable, foreign, object, blob]

def importLine : ImportedType → List Char
  | maybe => "import Data.Maybe (Maybe)".toList
  | nullable => "import Data.Nullable (Nullable)".toList
  | foreign => "import Foreign (Foreign)".toList
  | object => "import Foreign.Object (Object)".toList
  | blob => "import Web.File.Blob (Blob)".toList

def ofPrimitive : Primitive → List ImportedType
  | .binary => [blob]
  | _ => []

def ofType : TypeRef → List ImportedType
  | .primitive kind => ofPrimitive kind
  | .named _ => []
  | .array element => ofType element
  | .map values => object :: ofType values
  | .untypedMap => [object, foreign]
  | .nullable inner => nullable :: ofType inner

def ofField (options : EmitOptions) (field : Field) : List ImportedType :=
  ofType field.type ++
    match options.nullStyle with
    | .optionalField => if !field.required || field.nullable then [maybe] else []
    | .unionWithNull =>
        (if field.required then [] else [maybe]) ++
          if field.nullable then [nullable] else []

/-- Enumerations and unions have a constructor for null instead of a type. -/
def ofDeclaration (options : EmitOptions) (declaration : Declaration) :
    List ImportedType :=
  let ifNullable := if declaration.nullable then [nullable] else []
  match declaration.definition with
  | .primitive kind => ofPrimitive kind ++ ifNullable
  | .enum _ => []
  | .object fields => fields.flatMap (ofField options) ++ ifNullable
  | .array element => ofType element ++ ifNullable
  | .map values => object :: ofType values ++ ifNullable
  | .untypedMap => [object, foreign] ++ ifNullable
  | .union variants => variants.flatMap ofType
  | .reference target => ofType target ++ ifNullable

end ImportedType

def importLines (options : EmitOptions) (model : Model) : List (List Char) :=
  let used := model.declarations.flatMap (ImportedType.ofDeclaration options)
  (ImportedType.all.filter (· ∈ used)).map (·.importLine)

end Schemata.PureScript
