import Schemata.Text.Casing

namespace Schemata

/-- The type name for a schema key or a naming context: its Pascal casing. A name
cannot begin with a digit, so a letter comes before one. -/
def typeName (context : String) : String :=
  let name := Text.pascalCase context
  if name.toList.head?.any Char.isDigit then "T" ++ name else name

end Schemata
