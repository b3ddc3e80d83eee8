import Schemata.Yaml.Character
import Schemata.Yaml.Resolution

namespace Schemata.Yaml

/-! Writing texts as scalars. A text is written plainly where it reads back as
itself, else in single quotes, and in double quotes where characters need an
escape. A text with line feeds is written as a block. -/

inductive ScalarStyle where
  | plain
  | singleQuoted
  | doubleQuoted
  | literal
  deriving DecidableEq

/-- Whether a plain scalar is a string, and would be one even if leading zeros were
allowed in numbers. -/
def readsAsString (text : List Char) : Bool :=
  match plainValue? (String.ofList text) with
  | some (.string _) => !isZeroPadded text
  | _ => false

private def openingMarks : List Char :=
  "#,[]\x7b\x7d&*!|>'\"%@\x60".toList

/-- Whether a colon ends a key or a number sign begins a comment somewhere behind
the character before a text. -/
private def hasInnerMark (before : Char) : List Char → Bool
  | [] => false
  | char :: rest =>
      (char == ':' && isGap rest.head?) || (char == '#' && isGap (some before)) ||
        hasInnerMark char rest

private def hasStructure : List Char → Bool
  | '-' :: '-' :: '-' :: _ | '.' :: '.' :: '.' :: _ => true
  | first :: rest =>
      openingMarks.contains first ||
        ((first == '?' || first == ':' || first == '-') && isGap rest.head?) ||
        hasInnerMark first rest
  | [] => false

/-- Whether a character of one class stands right before one of another. -/
private def hasPair (first second : Char → Bool) : List Char → Bool
  | left :: right :: rest =>
      (first left && second right) || hasPair first second (right :: rest)
  | _ => false

private def isSpace (char : Char) : Bool := char == ' '

private def needsEscapes (text : List Char) : Bool :=
  hasPair isSpace isBreak text || text.any fun char => !isPrintable char

private def allowsPlain (text : List Char) : Bool :=
  !(text.any isBreak) && !(text.head?.any isSpace) && !(text.getLast?.any isSpace) &&
    !hasStructure text

private def allowsSingleQuotes (text : List Char) : Bool :=
  !hasPair isBreak isSpace text

private def allowsLiteral (text : List Char) : Bool :=
  !(text.getLast?.any isSpace)

def scalarStyle (text : List Char) : ScalarStyle :=
  if needsEscapes text then .doubleQuoted
  else if text.contains '\n' then
    if allowsLiteral text then .literal else .doubleQuoted
  else if readsAsString text && allowsPlain text then .plain
  else if allowsSingleQuotes text then .singleQuoted
  else .doubleQuoted

def indentation (indent : Nat) : List Char :=
  List.replicate indent ' '

/-- Indents every line that has a character other than its end. -/
private def indentLines (indent : Nat) : (atStart : Bool) → List Char → List Char
  | _, [] => []
  | atStart, char :: rest =>
      if isBreak char then char :: indentLines indent true rest
      else
        (if atStart then indentation indent else []) ++
          char :: indentLines indent false rest

private def singleQuoted (indent : Nat) (text : List Char) : List Char :=
  let body := text.flatMap fun char => if char = '\'' then ['\'', '\''] else [char]
  '\'' :: indentLines indent false (body ++ ['\''])

private def hexText (width value : Nat) : List Char :=
  let digits := (Nat.toDigits 16 value).map Char.toUpper
  List.replicate (width - digits.length) '0' ++ digits

private def escape (char : Char) : List Char :=
  match char with
  | '\x00' => ['0']
  | '\x07' => ['a']
  | '\x08' => ['b']
  | '\t' => ['t']
  | '\n' => ['n']
  | '\x0b' => ['v']
  | '\x0c' => ['f']
  | '\r' => ['r']
  | '\x1b' => ['e']
  | '"' => ['"']
  | '\\' => ['\\']
  | '\u0085' => ['N']
  | '\u2028' => ['L']
  | '\u2029' => ['P']
  | char =>
      let code := char.toNat
      if code ≤ 0xFF then 'x' :: hexText 2 code
      else if code ≤ 0xFFFF then 'u' :: hexText 4 code
      else 'U' :: hexText 8 code

private def doubleQuoted (text : List Char) : List Char :=
  let body := text.flatMap fun char =>
    if isBreak char || !isPrintable char || char == '"' || char == '\\' then
      '\\' :: escape char
    else [char]
  '"' :: body ++ ['"']

/-- What the end of a block says of the line ends there: none, one or more. -/
private def chompingMark (text : List Char) : List Char :=
  match text.reverse with
  | [] => ['-']
  | [last] => if isBreak last then ['+'] else ['-']
  | last :: previous :: _ =>
      if !isBreak last then ['-'] else if isBreak previous then ['+'] else []

private def literalBlock (indent : Nat) (text : List Char) : List Char :=
  let indentMark :=
    if text.head?.any fun char => isSpace char || isBreak char then ['2'] else []
  '|' :: indentMark ++ chompingMark text ++ '\n' :: indentLines indent true text

def scalarText (indent : Nat) (text : String) : List Char :=
  let text := text.toList
  match scalarStyle text with
  | .plain => text
  | .singleQuoted => singleQuoted indent text
  | .doubleQuoted => doubleQuoted text
  | .literal => literalBlock indent text

end Schemata.Yaml
