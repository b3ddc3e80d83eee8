import Schemata.Json.Quoted
import Schemata.Naming.Suffix
import Schemata.Text.Casing

namespace Schemata.PureScript

/-! Labels of record fields. -/

/-- A bare label denotes its own text and a quoted one the text in its quotes. -/
inductive Label where
  | bare (denoted : String)
  | quoted (denoted : String)
  deriving DecidableEq

def reservedWords : List String :=
  ["ado", "as", "case", "class", "data", "derive", "do", "else", "false",
   "forall", "foreign", "hiding", "if", "import", "in", "infix", "infixl",
   "infixr", "instance", "let", "module", "newtype", "of", "then", "true",
   "type", "where"]

namespace Label

def denoted : Label → String
  | bare text | quoted text => text

def text : Label → List Char
  | bare text => text.toList
  | quoted text => Json.Quoted.encode text.toList

/-- The label of a property by itself: its camel casing, with an underscore after
a reserved word. A name that gives no identifier is quoted. -/
def ofName (name : String) : Label :=
  let camel := Text.camelCase name
  if camel.toList.head?.any fun char => char.isLower || char == '_' then
    if camel ∈ reservedWords then bare (camel ++ "_") else bare camel
  else quoted name

def withDenoted (text : String) : Label → Label
  | bare _ => bare text
  | quoted _ => quoted text

/-- A label that denotes none of the texts in use: the preferred one, else the
quoted name of the property, else the preferred one with a number. -/
def unused (used : List String) (name : String) : Label :=
  let preferred := ofName name
  if preferred.denoted ∉ used then preferred
  else if name ∉ used then quoted name
  else preferred.withDenoted (freeSuffixed used preferred.denoted)

def ofNamesFrom (used : List String) : List String → List Label
  | [] => []
  | name :: rest =>
      let label := unused used name
      label :: ofNamesFrom (label.denoted :: used) rest

theorem length_ofNamesFrom (used names : List String) :
    (ofNamesFrom used names).length = names.length := by
  induction names generalizing used with
  | nil => rfl
  | cons name rest induction =>
      rw [ofNamesFrom, List.length_cons, List.length_cons, induction]

def ofNames (names : List String) : List Label :=
  ofNamesFrom [] names

end Label

end Schemata.PureScript
