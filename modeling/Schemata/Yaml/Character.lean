namespace Schemata.Yaml

/-! Character classes of YAML texts. -/

/-- Carriage return, line feed and the three line ends beyond ASCII. -/
def isBreak (char : Char) : Bool :=
  char == '\n' || char == '\r' || char == '\u0085' || char == '\u2028' ||
    char == '\u2029'

def isWhite (char : Char) : Bool :=
  char == ' ' || char == '\t'

/-- Characters of anchors, directive names and tag handles. -/
def isWord (char : Char) : Bool :=
  char.isAlphanum || char == '_' || char == '-'

/-- White space, a break or the end of the text. -/
def isGap : Option Char → Bool
  | some char => isWhite char || isBreak char
  | none => true

def isFlowBracket (char : Char) : Bool :=
  char == '[' || char == ']' || char == '\x7b' || char == '\x7d'

/-- Other control characters and unassigned code points may not occur at all. -/
def isAllowed (char : Char) : Bool :=
  let code := char.toNat
  code == 0x09 || code == 0x0A || code == 0x0D || code == 0x85 ||
    (0x20 ≤ code && code ≤ 0x7E) || (0xA0 ≤ code && code ≤ 0xFFFD) ||
    0x10000 ≤ code

/-- All line ends count as line feeds except the separators of lines and
paragraphs. -/
def breakText (char : Char) : List Char :=
  if char = '\u2028' ∨ char = '\u2029' then [char] else ['\n']

/-- Control characters other than the line feed, the byte order mark and the last
two code points of the first plane are not. -/
def isPrintable (char : Char) : Bool :=
  let code := char.toNat
  char == '\n' || (0x20 ≤ code && code ≤ 0x7E) ||
    (0xA0 ≤ code && code != 0xFEFF && code != 0xFFFE && code != 0xFFFF)

end Schemata.Yaml
