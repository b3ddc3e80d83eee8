import Schemata.Document.Location
import Schemata.Json.Basic
import Schemata.Model.Literal
import Schemata.Model.TypeRef

namespace Schemata

/-! Declared types with their documentation. -/

structure Docs where
  description : Option String
  /-- An example value. -/
  sample : Option Json
  format : Option String
  deriving Inhabited

def Docs.empty : Docs := ⟨none, none, none⟩

/-- Documentation with gaps filled from other documentation. -/
def Docs.orElse (docs other : Docs) : Docs where
  description := docs.description.or other.description
  sample := docs.sample.or other.sample
  format := docs.format.or other.format

structure Field where
  name : String
  type : TypeRef
  required : Bool
  nullable : Bool
  docs : Docs

inductive Definition where
  | primitive (kind : Primitive)
  | enum (values : List Literal)
  | object (fields : List Field)
  | array (element : TypeRef)
  | map (values : TypeRef)
  | untypedMap
  | union (variants : List TypeRef)
  /-- A name for another type. -/
  | reference (target : TypeRef)

namespace Definition

def kindName : Definition → String
  | primitive _ => "primitive"
  | enum _ => "enum"
  | object _ => "object"
  | array _ => "array"
  | map _ | untypedMap => "map"
  | union _ => "union"
  | reference _ => "reference"

def types : Definition → List TypeRef
  | primitive _ | enum _ | untypedMap => []
  | object fields => fields.map (·.type)
  | array element => [element]
  | map values => [values]
  | union variants => variants
  | reference target => [target]

def names (definition : Definition) : List String :=
  definition.types.flatMap (·.names)

end Definition

/-- The kinds among the values of an enumeration, each where it first occurs. -/
def literalKinds (values : List Literal) : List LiteralKind :=
  (values.map (·.kind)).eraseDups

structure Declaration where
  name : String
  definition : Definition
  /-- The declared values include null. -/
  nullable : Bool
  docs : Docs
  /-- The place of the schema that the declaration comes from. -/
  location : Location

end Schemata
