import Schemata.Number.Digits

namespace Schemata.Json.Quoted

/-! String literals: quotes, backslashes and control characters are written as
escapes, all other characters as they are. -/

private def hexDigit (value : Nat) : Char :=
  Char.ofNat (if value < 10 then '0'.toNat + value else 'a'.toNat + (value - 10))

def escape (char : Char) : List Char :=
  match char with
  | '"' => ['\\', '"']
  | '\\' => ['\\', '\\']
  | '\n' => ['\\', 'n']
  | '\r' => ['\\', 'r']
  | '\t' => ['\\', 't']
  | '\x08' => ['\\', 'b']
  | '\x0c' => ['\\', 'f']
  | char =>
      if char.toNat < 32 then
        ['\\', 'u', '0', '0', hexDigit (char.toNat / 16), hexDigit (char.toNat % 16)]
      else [char]

def encode (text : List Char) : List Char :=
  '"' :: text.flatMap escape ++ ['"']

/-- A character of a literal, or a number from `0` to `0xFFFF` that an escape
gives for one. -/
inductive Piece where
  | char (value : Char)
  | code (value : Nat)

private def unescape : Char → Option Char
  | '"' => some '"'
  | '\\' => some '\\'
  | '/' => some '/'
  | 'n' => some '\n'
  | 'r' => some '\r'
  | 't' => some '\t'
  | 'b' => some '\x08'
  | 'f' => some '\x0c'
  | _ => none

/-- Reads up to the closing quote and returns what follows it. Control characters
must be escaped. -/
def pieces : List Char → Option (List Piece × List Char)
  | [] => none
  | '"' :: rest => some ([], rest)
  | '\\' :: 'u' :: first :: second :: third :: fourth :: rest => do
      let code ← readNatural 16 [first, second, third, fourth]
      let (more, after) ← pieces rest
      return (.code code :: more, after)
  | '\\' :: char :: rest => do
      let char ← unescape char
      let (more, after) ← pieces rest
      return (.char char :: more, after)
  | char :: rest =>
      if char.toNat < 32 ∨ char = '\\' then none
      else do
        let (more, after) ← pieces rest
        return (.char char :: more, after)

/-- Two escapes spell a character beyond `0xFFFF` together; neither stands for a
character on its own. -/
def characters : List Piece → Option (List Char)
  | [] => some []
  | .char char :: rest => (char :: ·) <$> characters rest
  | [.code code] =>
      if 0xD800 ≤ code ∧ code ≤ 0xDFFF then none else some [Char.ofNat code]
  | .code high :: .code low :: rest =>
      if 0xD800 ≤ high ∧ high ≤ 0xDBFF then
        if 0xDC00 ≤ low ∧ low ≤ 0xDFFF then
          let code := 0x10000 + (high - 0xD800) * 0x400 + (low - 0xDC00)
          (Char.ofNat code :: ·) <$> characters rest
        else none
      else if 0xDC00 ≤ high ∧ high ≤ 0xDFFF then none
      else (Char.ofNat high :: ·) <$> characters (.code low :: rest)
  | .code code :: .char char :: rest =>
      if 0xD800 ≤ code ∧ code ≤ 0xDFFF then none
      else (Char.ofNat code :: ·) <$> characters (.char char :: rest)

/-- The text of a literal whose opening quote has been read, and what follows. -/
def read (input : List Char) : Option (List Char × List Char) := do
  let (pieces, rest) ← pieces input
  return (← characters pieces, rest)

def decode : List Char → Option (List Char)
  | '"' :: body =>
      match read body with
      | some (text, []) => some text
      | _ => none
  | _ => none

/-! What is read for a character as it is written. -/

/-- Only a control character is written with its number. -/
def Piece.Spells (written : Char) : Piece → Prop
  | .char value => value = written
  | .code value => value = written.toNat ∧ value < 32

private theorem pieces_letter {letter char : Char} (unicode : letter ≠ 'u')
    (escaped : unescape letter = some char) (rest : List Char) :
    pieces ('\\' :: letter :: rest) =
      (pieces rest).map fun (more, after) => (.char char :: more, after) := by
  rw [pieces.eq_4 _ _ (fun _ _ _ _ _ same _ => unicode same), escaped]
  cases pieces rest <;> rfl

private theorem readNatural_hexDigits : ∀ code < 32,
    readNatural 16 ['0', '0', hexDigit (code / 16), hexDigit (code % 16)] = some code := by
  decide

private theorem pieces_code {code : Nat} (control : code < 32) (rest : List Char) :
    pieces (['\\', 'u', '0', '0', hexDigit (code / 16), hexDigit (code % 16)] ++ rest) =
      (pieces rest).map fun (more, after) => (.code code :: more, after) := by
  show pieces ('\\' :: 'u' :: '0' :: '0' :: hexDigit _ :: hexDigit _ :: rest) = _
  rw [pieces.eq_3, readNatural_hexDigits code control]
  cases pieces rest <;> rfl

private theorem pieces_char {char : Char} (quote : char ≠ '"') (backslash : char ≠ '\\')
    (visible : ¬char.toNat < 32) (rest : List Char) :
    pieces (char :: rest) =
      (pieces rest).map fun (more, after) => (.char char :: more, after) := by
  rw [pieces.eq_5 _ _ quote (fun _ _ _ _ _ same _ => backslash same)
    (fun _ _ same _ => backslash same), if_neg (not_or.mpr ⟨visible, backslash⟩)]
  cases pieces rest <;> rfl

theorem exists_piece_escape (char : Char) : ∃ piece : Piece, piece.Spells char ∧
    ∀ rest, pieces (escape char ++ rest) =
      (pieces rest).map fun (more, after) => (piece :: more, after) := by
  fun_cases escape char with
  | case8 char _ _ _ _ _ _ _ control =>
      exact ⟨.code char.toNat, ⟨rfl, control⟩, pieces_code control⟩
  | case9 char quote backslash _ _ _ _ _ visible =>
      exact ⟨.char char, rfl, pieces_char quote backslash visible⟩
  | _ => exact ⟨.char _, rfl, pieces_letter (by decide) rfl⟩

end Schemata.Json.Quoted

namespace Schemata.Json

def quote (text : String) : String :=
  String.ofList (Quoted.encode text.toList)

end Schemata.Json
