import Schemata.Json.Printer
import Schemata.Model.Declaration
import Schemata.Text.Blank
import Schemata.Text.Split

namespace Schemata

/-- Documentation as the lines of a comment: the description, then the example in
JSON notation and the format. -/
def Docs.lines (docs : Docs) : List (List Char) :=
  let description :=
    match docs.description with
    | some text => (Text.lines (Text.trim text.toList)).map Text.trimEnd
    | none => []
  let sample :=
    match docs.sample with
    | some value => ["Example - ".toList ++ value.compact]
    | none => []
  let format :=
    match docs.format with
    | some format => ["Format - ".toList ++ format.toList]
    | none => []
  description ++ sample ++ format

/-- The first line of the description, which is empty when there is none. -/
def Docs.headline (docs : Docs) : List Char :=
  match docs.description with
  | some text => Text.trimEnd ((Text.lines (Text.trim text.toList)).headD [])
  | none => []

/-- A comment line, set off from its marker unless it is empty. -/
def commentLine (marker line : List Char) : List Char :=
  if line.isEmpty then marker else marker ++ ' ' :: line

end Schemata
