import Schemata.Entries
import Schemata.Model.Declaration

namespace Schemata

/-! Schemas as they are declared, before references are followed. -/

structure SchemaInfo where
  nullable : Bool
  docs : Docs
  location : Location
  deriving Inhabited

structure Property (α : Type) where
  name : String
  required : Bool
  schema : α

inductive Schema where
  | reference (info : SchemaInfo) (target : String)
  | primitive (info : SchemaInfo) (kind : Primitive)
  | enum (info : SchemaInfo) (values : List Literal)
  | object (info : SchemaInfo) (properties : List (Property Schema))
  | array (info : SchemaInfo) (items : Schema)
  | map (info : SchemaInfo) (values : Schema)
  | untypedMap (info : SchemaInfo)
  | union (info : SchemaInfo) (variants : List Schema)

namespace Schema

def info : Schema → SchemaInfo
  | reference info _ | primitive info _ | enum info _ | object info _
  | array info _ | map info _ | untypedMap info | union info _ => info

def withInfo (info : SchemaInfo) : Schema → Schema
  | reference _ target => reference info target
  | primitive _ kind => primitive info kind
  | enum _ values => enum info values
  | object _ properties => object info properties
  | array _ items => array info items
  | map _ values => map info values
  | untypedMap _ => untypedMap info
  | union _ variants => union info variants

def nullable (schema : Schema) : Bool := schema.info.nullable

def docs (schema : Schema) : Docs := schema.info.docs

def location (schema : Schema) : Location := schema.info.location

@[simp] theorem info_withInfo (info : SchemaInfo) (schema : Schema) :
    (schema.withInfo info).info = info := by
  cases schema <;> rfl

@[simp] theorem withInfo_info (schema : Schema) : schema.withInfo schema.info = schema := by
  cases schema <;> rfl

@[simp] theorem withInfo_withInfo (first second : SchemaInfo) (schema : Schema) :
    (schema.withInfo first).withInfo second = schema.withInfo second := by
  cases schema <;> rfl

/-- Shapes that a type expression can only name. -/
def NeedsName : Schema → Prop
  | object .. | enum .. | union .. => True
  | _ => False

instance : (schema : Schema) → Decidable schema.NeedsName
  | object .. | enum .. | union .. => .isTrue trivial
  | reference .. | primitive .. | array .. | map .. | untypedMap .. =>
      .isFalse id

/-- The schema of a wrapper around one schema: the wrapper's documentation comes
first, and either of the two may allow null. -/
def wrappedBy (docs : Docs) (nullable : Bool) (schema : Schema) : Schema :=
  schema.withInfo
    { nullable := schema.nullable || nullable
      docs := docs.orElse schema.docs
      location := schema.location }

section

variable (outer : Docs) (allowsNull : Bool) (schema : Schema)

@[simp] theorem nullable_wrappedBy :
    (schema.wrappedBy outer allowsNull).nullable = (schema.nullable || allowsNull) := by
  rw [wrappedBy, nullable, info_withInfo]

@[simp] theorem docs_wrappedBy :
    (schema.wrappedBy outer allowsNull).docs = outer.orElse schema.docs := by
  rw [wrappedBy, docs, info_withInfo]

@[simp] theorem location_wrappedBy :
    (schema.wrappedBy outer allowsNull).location = schema.location := by
  rw [wrappedBy, location, info_withInfo]

@[simp] theorem withInfo_wrappedBy (info : SchemaInfo) :
    (schema.wrappedBy outer allowsNull).withInfo info = schema.withInfo info :=
  withInfo_withInfo _ info schema

end

end Schema

/-- The declared schemas of a document in order. -/
@[ext]
structure Forest where
  roots : List (String × Schema)
  distinct : (roots.map Prod.fst).Nodup

def Forest.ofList (roots : List (String × Schema)) : Forest where
  roots := Entries.ofList roots
  distinct := Entries.nodup_names_ofList roots

end Schemata
