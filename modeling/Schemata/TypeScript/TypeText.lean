import Schemata.Json.Quoted
import Schemata.Model.TypeRef

namespace Schemata.TypeScript

/-! Type expressions and property keys. -/

def primitiveText : Primitive → List Char
  | .string | .dateTime => "string".toList
  | .number | .integer => "number".toList
  | .boolean => "boolean".toList
  | .binary => "Blob".toList

def orNull (text : List Char) : List Char :=
  text ++ " | null".toList

/-- An element type with alternatives is put in parentheses. -/
def arrayText (element : List Char) : List Char :=
  if '|' ∈ element then '(' :: element ++ ")[]".toList
  else element ++ "[]".toList

def recordText (values : List Char) : List Char :=
  "Record<string, ".toList ++ values ++ ['>']

def typeText : TypeRef → List Char
  | .primitive kind => primitiveText kind
  | .named name => name.toList
  | .array element => arrayText (typeText element)
  | .map values => recordText (typeText values)
  | .untypedMap => recordText "unknown".toList
  | .nullable inner => orNull (typeText inner)

def startsIdentifier (char : Char) : Bool :=
  char.isAlpha || char == '_' || char == '$'

def continuesIdentifier (char : Char) : Bool :=
  char.isAlphanum || char == '_' || char == '$'

def isIdentifier : List Char → Bool
  | [] => false
  | first :: rest => startsIdentifier first && rest.all continuesIdentifier

/-- A property key is quoted unless it is an identifier. -/
def propertyKey (name : List Char) : List Char :=
  if isIdentifier name then name else Json.Quoted.encode name

end Schemata.TypeScript
