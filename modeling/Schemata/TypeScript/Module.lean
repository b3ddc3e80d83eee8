import Schemata.Emission.Source
import Schemata.TypeScript.Declaration

namespace Schemata.TypeScript

/-! The text of declarations and of the file that holds them. -/

def comment (indent : List Char) : List (List Char) → List (List Char)
  | [] => []
  | docs =>
      [indent ++ "/**".toList] ++
        docs.map (fun line => indent ++ commentLine " *".toList line) ++
        [indent ++ " */".toList]

def Property.lines (property : Property) : List (List Char) :=
  comment "  ".toList property.docs ++
    ["  ".toList ++ property.key ++ (if property.optional then ['?'] else []) ++
      ": ".toList ++ property.type ++ [';']]

def EnumMember.line (member : EnumMember) : List Char :=
  "  ".toList ++ member.name.toList ++ " = ".toList ++ member.value.text.toList ++
    [',']

def enclosed (opening closing : List Char) :
    List (List Char) → List (List Char)
  | [] => [opening ++ closing]
  | lines => [opening] ++ lines ++ [closing]

/-- Objects that may be null cannot be interfaces. -/
def Body.lines (name : List Char) : Body → List (List Char)
  | object false properties =>
      enclosed ("export interface ".toList ++ name ++ " \x7b".toList)
        "\x7d".toList (properties.flatMap (·.lines))
  | object true properties =>
      enclosed ("export type ".toList ++ name ++ " = \x7b".toList)
        "\x7d | null;".toList (properties.flatMap (·.lines))
  | enum members =>
      ["export enum ".toList ++ name ++ " \x7b".toList] ++
        members.map (·.line) ++ ["\x7d".toList]
  | typeAlias alternatives =>
      ["export type ".toList ++ name ++ " = ".toList ++
        " | ".toList.intercalate alternatives ++ [';']]

def Declaration.text (declaration : Declaration) : List Char :=
  joinLines (comment [] declaration.docs ++
    declaration.body.lines declaration.name.toList)

def emit (options : EmitOptions) (model : Model) : List SourceDeclaration :=
  model.declarations.map fun declaration =>
    ⟨declaration.name, (Declaration.ofModel options declaration).text⟩

def heading : List (List Char) :=
  ["/**".toList, " * This file is auto-generated. Do not edit manually.".toList,
    " */".toList]

/-- The declarations follow the heading, each after an empty line. -/
def fileText (declarations : List SourceDeclaration) : List Char :=
  unlines (heading ++ declarations.flatMap fun declaration =>
    [[], declaration.text])

def standardFileName : String := "types.ts"

def generate (options : EmitOptions) (fileName : String) (model : Model) :
    SourceFile :=
  ⟨fileName, fileText (emit options model)⟩

end Schemata.TypeScript
