import Schemata.Text.Blank

namespace Schemata

/-! Emitted source text. -/

/-- The text of one declaration, without a final line break. -/
structure SourceDeclaration where
  name : String
  text : List Char

structure SourceFile where
  path : String
  content : List Char

/-- Lines one below the other, without blank characters at the end. -/
def joinLines (lines : List (List Char)) : List Char :=
  Text.trimEnd (['\n'].intercalate lines)

/-- Every line with its line break. -/
def unlines (lines : List (List Char)) : List Char :=
  lines.flatMap (· ++ ['\n'])

end Schemata
