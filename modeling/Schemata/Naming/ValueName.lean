import Schemata.Model.Literal
import Schemata.Naming.TypeName

namespace Schemata

/-- A number in words and underscores: no sign and no point. -/
def spelledNumber (value : Number) : List Char :=
  value.text.flatMap fun char =>
    match char with
    | '-' => "Minus".toList
    | '.' => ['_']
    | char => [char]

def Literal.valueName : Literal → String
  | string value => typeName value
  | number value => "Value" ++ String.ofList (spelledNumber value)
  | boolean true => "ValueTrue"
  | boolean false => "ValueFalse"
  | null => "ValueNull"

end Schemata
