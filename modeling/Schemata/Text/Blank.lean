namespace Schemata.Text

/-! Blank characters and their removal from the ends of a text. -/

/-- Code points with the Unicode property White_Space. -/
def isBlank (char : Char) : Bool :=
  char == ' ' || (9 ≤ char.toNat && char.toNat ≤ 13) ||
    char == '\u0085' || char == '\u00a0' || char == '\u1680' ||
    (0x2000 ≤ char.toNat && char.toNat ≤ 0x200a) ||
    char == '\u2028' || char == '\u2029' || char == '\u202f' ||
    char == '\u205f' || char == '\u3000'

def trimStart (text : List Char) : List Char :=
  text.dropWhile isBlank

def trimEnd (text : List Char) : List Char :=
  (trimStart text.reverse).reverse

def trim (text : List Char) : List Char :=
  trimEnd (trimStart text)

end Schemata.Text
