namespace Schemata

/-! Type expressions of the resolved model. -/

/-- Scalar types that every target language has. Dates and binary data are strings
with a format. -/
inductive Primitive where
  | string
  | number
  | integer
  | boolean
  | dateTime
  | binary
  deriving DecidableEq, Inhabited

/-- Only `named` refers to a declaration, and by its name alone, so recursive types
need no recursive expressions. -/
inductive TypeRef where
  | primitive (kind : Primitive)
  | named (name : String)
  | array (element : TypeRef)
  | map (values : TypeRef)
  /-- A dictionary with values of any kind. -/
  | untypedMap
  | nullable (inner : TypeRef)
  deriving DecidableEq, Inhabited

def TypeRef.names : TypeRef → List String
  | primitive _ | untypedMap => []
  | named name => [name]
  | array inner | map inner | nullable inner => inner.names

end Schemata
