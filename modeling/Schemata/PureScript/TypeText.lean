import Schemata.Model.TypeRef

namespace Schemata.PureScript

/-! Type expressions as applications of type constructors. -/

def primitiveText : Primitive → List Char
  | .string | .dateTime => "String".toList
  | .number => "Number".toList
  | .integer => "Int".toList
  | .boolean => "Boolean".toList
  | .binary => "Blob".toList

/-- A type as the argument of an application. -/
def argument (type : List Char) : List Char :=
  if ' ' ∈ type then '(' :: type ++ [')'] else type

def applied (constructor type : List Char) : List Char :=
  constructor ++ ' ' :: argument type

def nullableText (type : List Char) : List Char :=
  applied "Nullable".toList type

def maybeText (type : List Char) : List Char :=
  applied "Maybe".toList type

def typeText : TypeRef → List Char
  | .primitive kind => primitiveText kind
  | .named name => name.toList
  | .array element => applied "Array".toList (typeText element)
  | .map values => applied "Object".toList (typeText values)
  | .untypedMap => applied "Object".toList "Foreign".toList
  | .nullable inner => nullableText (typeText inner)

end Schemata.PureScript
