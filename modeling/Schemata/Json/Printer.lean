import Schemata.Json.Basic
import Schemata.Json.Quoted

namespace Schemata.Json

/-! Writing JSON values on one line and on several. -/

private def quoted (text : String) : List Char :=
  Quoted.encode text.toList

private def scalarText : Json → List Char
  | .bool true => "true".toList
  | .bool false => "false".toList
  | .number value => value.text
  | .string value => quoted value
  | _ => "null".toList

mutual
def compact : Json → List Char
  | .array items => '[' :: [','].intercalate (compactItems items) ++ [']']
  | .object members =>
      '\x7b' :: [','].intercalate (compactMembers members) ++ ['\x7d']
  | scalar => scalarText scalar

private def compactItems : List Json → List (List Char)
  | [] => []
  | item :: rest => item.compact :: compactItems rest

private def compactMembers : List (String × Json) → List (List Char)
  | [] => []
  | (name, value) :: rest =>
      (quoted name ++ ':' :: value.compact) :: compactMembers rest
end

private theorem compactItems_eq (items : List Json) :
    compactItems items = items.map compact := by
  induction items with
  | nil => rfl
  | cons item rest induction => rw [compactItems, induction, List.map_cons]

private theorem compactMembers_eq (members : List (String × Json)) :
    compactMembers members =
      members.map fun member =>
        Quoted.encode member.1.toList ++ ':' :: member.2.compact := by
  induction members with
  | nil => rfl
  | cons member rest induction => rw [compactMembers, induction]; rfl

theorem compact_array (items : List Json) :
    (array items).compact =
      '[' :: [','].intercalate (items.map compact) ++ [']'] := by
  rw [compact, compactItems_eq]

theorem compact_object (members : List (String × Json)) :
    (object members).compact =
      '\x7b' :: [','].intercalate (members.map fun member =>
        Quoted.encode member.1.toList ++ ':' :: member.2.compact) ++ ['\x7d'] := by
  rw [compact, compactMembers_eq]

private def indentation (depth : Nat) : List Char :=
  '\n' :: List.replicate (2 * depth) ' '

private def block (depth : Nat) (opening closing : Char)
    (parts : List (List Char)) : List Char :=
  if parts.isEmpty then [opening, closing]
  else
    opening :: indentation (depth + 1) ++
      (',' :: indentation (depth + 1)).intercalate parts ++
      indentation depth ++ [closing]

mutual
private def prettyAt (depth : Nat) : Json → List Char
  | .array items => block depth '[' ']' (prettyItems (depth + 1) items)
  | .object members =>
      block depth '\x7b' '\x7d' (prettyMembers (depth + 1) members)
  | scalar => scalarText scalar

private def prettyItems (depth : Nat) : List Json → List (List Char)
  | [] => []
  | item :: rest => prettyAt depth item :: prettyItems depth rest

private def prettyMembers (depth : Nat) :
    List (String × Json) → List (List Char)
  | [] => []
  | (name, value) :: rest =>
      (quoted name ++ ':' :: ' ' :: prettyAt depth value) ::
        prettyMembers depth rest
end

/-- One entry a line, indented by two spaces a level. -/
def pretty (value : Json) : List Char :=
  prettyAt 0 value

def text (value : Json) : String :=
  String.ofList value.compact

end Schemata.Json
