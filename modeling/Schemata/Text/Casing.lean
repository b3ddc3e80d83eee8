import Schemata.Text.Alphanumeric
import Schemata.Text.CaseMapping
import Schemata.Text.Lowercase
import Schemata.Text.Split
import Schemata.Text.Uppercase

namespace Schemata.Text

/-! Word splitting and the casings of a name. A name falls apart at characters
that are neither letters nor numbers and at changes of letter case. -/

/-- The maximal alphanumeric stretches of a text. -/
def stretches (text : List Char) : List (List Char) :=
  (splitWhere (!isAlphanumeric ·) text).filter (!·.isEmpty)

/-- Case of the latest cased letter of the word being read. -/
inductive CaseMode where
  | undetermined
  | lower
  | upper
  deriving DecidableEq

def CaseMode.after (mode : CaseMode) (char : Char) : CaseMode :=
  if isLowercase char then .lower
  else if isUppercase char then .upper
  else mode

/-- Splits a stretch before a capital that follows a lower-case mode, and before
the last capital of a row of capitals that a small letter follows. `pending` is
the current word in reverse. -/
def splitByCase (mode : CaseMode) (pending : List Char) :
    List Char → List (List Char)
  | [] => []
  | [last] => [(last :: pending).reverse]
  | char :: next :: rest =>
      if mode.after char = .lower ∧ isUppercase next then
        (char :: pending).reverse :: splitByCase .undetermined [] (next :: rest)
      else if mode = .upper ∧ isUppercase char ∧ isLowercase next then
        pending.reverse :: splitByCase .undetermined [char] (next :: rest)
      else
        splitByCase (mode.after char) (char :: pending) (next :: rest)

/-- The words of a name. A name without letters and numbers reads `unnamed`. -/
def words (name : List Char) : List (List Char) :=
  match stretches name with
  | [] => ["unnamed".toList]
  | pieces => pieces.flatMap (splitByCase .undetermined [])

/-- Small letters throughout; a sigma at the end takes its final form. -/
def lowered : List Char → List Char
  | [] => []
  | ['Σ'] => ['ς']
  | char :: rest => lowercase char ++ lowered rest

def capitalized : List Char → List Char
  | [] => []
  | char :: rest => uppercase char ++ lowered rest

def pascalCase (name : String) : String :=
  String.ofList ((words name.toList).flatMap capitalized)

def camelCase (name : String) : String :=
  String.ofList <|
    match words name.toList with
    | [] => []
    | first :: more => lowered first ++ more.flatMap capitalized

def snakeCase (name : String) : String :=
  String.ofList (['_'].intercalate ((words name.toList).map lowered))

end Schemata.Text
