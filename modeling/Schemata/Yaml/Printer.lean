import Schemata.Json.Basic
import Schemata.Yaml.ScalarText
import Schemata.Yaml.Value

namespace Schemata.Yaml

/-! Writing JSON values in block style. The items of a sequence under a key stand
as far right as the key. -/

/-- Ends a line where none has just ended. -/
private def endLine (text : List Char) : List Char :=
  if text.getLast?.any isBreak then text else text ++ ['\n']

private def scalarLine (indent : Nat) : Json → List Char
  | .bool true => "true\n".toList
  | .bool false => "false\n".toList
  | .number value => (ExtendedNumber.finite value).text ++ ['\n']
  | .string value => endLine (scalarText indent value)
  | _ => "null\n".toList

mutual
private def blockAt (column : Nat) : Json → List Char
  | .array [] => "[]\n".toList
  | .object [] => "\x7b\x7d\n".toList
  | .array items => (indentation column).intercalate (itemBlocks column items)
  | .object members => (indentation column).intercalate (memberBlocks column members)
  | scalar => scalarLine column scalar

private def itemBlocks (column : Nat) : List Json → List (List Char)
  | [] => []
  | item :: rest =>
      ('-' :: ' ' :: blockAt (column + 2) item) :: itemBlocks column rest

private def memberBlocks (column : Nat) : List (String × Json) → List (List Char)
  | [] => []
  | (name, value) :: rest =>
      (scalarText column name ++ ':' :: memberValue column value) ::
        memberBlocks column rest

private def memberValue (column : Nat) : Json → List Char
  | .array (item :: rest) =>
      '\n' :: indentation column ++
        (indentation column).intercalate (itemBlocks column (item :: rest))
  | .object (member :: rest) =>
      '\n' :: indentation (column + 2) ++
        (indentation (column + 2)).intercalate
          (memberBlocks (column + 2) (member :: rest))
  | .array [] => " []\n".toList
  | .object [] => " \x7b\x7d\n".toList
  | scalar => ' ' :: scalarLine (column + 2) scalar
end

def render (members : List (String × Json)) : List Char :=
  blockAt 0 (.object members)

end Schemata.Yaml
