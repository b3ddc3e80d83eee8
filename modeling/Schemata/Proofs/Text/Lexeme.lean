import Mathlib.Data.List.Basic

namespace Schemata.Text

/-! The lexemes of a text: its words, and the characters that break it. A character that breaks
the text takes the lexemes apart into those left and right of it. -/

inductive Lexeme where
  | word (text : List Char)
  | mark (char : Char)
  deriving DecidableEq

variable {breaks : Char → Bool}

/-- The lexemes with every blank among them. -/
def spacedLexemes (breaks : Char → Bool) : List Char → List Lexeme
  | [] => []
  | char :: rest =>
      if breaks char then .mark char :: spacedLexemes breaks rest
      else
        match spacedLexemes breaks rest with
        | .word word :: more => .word (char :: word) :: more
        | more => .word [char] :: more

/-- Blanks only keep words apart. -/
def lexemes (breaks : Char → Bool) (text : List Char) : List Lexeme :=
  (spacedLexemes breaks text).filter (· ≠ .mark ' ')

theorem spacedLexemes_word {word : List Char} (nonempty : word ≠ [])
    (unbroken : ∀ char ∈ word, breaks char = false) :
    spacedLexemes breaks word = [.word word] := by
  induction word with
  | nil => exact absurd rfl nonempty
  | cons char rest induction =>
      obtain ⟨here, later⟩ := List.forall_mem_cons.mp unbroken
      rw [spacedLexemes, here]
      cases rest with
      | nil => rfl
      | cons => rw [induction (List.cons_ne_nil _ _) later]; rfl

theorem spacedLexemes_break {char : Char} (separates : breaks char = true)
    (left right : List Char) :
    spacedLexemes breaks (left ++ char :: right) =
      spacedLexemes breaks left ++ .mark char :: spacedLexemes breaks right := by
  induction left with
  | nil => exact if_pos separates
  | cons first rest induction =>
      rw [List.cons_append, spacedLexemes, spacedLexemes, induction]
      cases breaks first with
      | true => rfl
      | false =>
          cases spacedLexemes breaks rest with
          | nil => rfl
          | cons lexeme more => cases lexeme <;> rfl

theorem lexemes_word {word : List Char} (nonempty : word ≠ [])
    (unbroken : ∀ char ∈ word, breaks char = false) :
    lexemes breaks word = [.word word] := by
  rw [lexemes, spacedLexemes_word nonempty unbroken]
  rfl

theorem lexemes_mark {char : Char} (separates : breaks char = true) (visible : char ≠ ' ')
    (left right : List Char) :
    lexemes breaks (left ++ char :: right) =
      lexemes breaks left ++ .mark char :: lexemes breaks right := by
  rw [lexemes, spacedLexemes_break separates, List.filter_append,
    List.filter_cons_of_pos (by simpa using visible)]
  rfl

theorem lexemes_blank (separates : breaks ' ' = true) (left right : List Char) :
    lexemes breaks (left ++ ' ' :: right) =
      lexemes breaks left ++ lexemes breaks right := by
  rw [lexemes, spacedLexemes_break separates, List.filter_append]
  rfl

theorem lexemes_enclosed {opening closing : Char} (opens : breaks opening = true)
    (closes : breaks closing = true) (visible : opening ≠ ' ' ∧ closing ≠ ' ')
    (text : List Char) :
    lexemes breaks (opening :: text ++ [closing]) =
      .mark opening :: lexemes breaks text ++ [.mark closing] :=
  calc lexemes breaks (opening :: text ++ [closing])
      = .mark opening :: lexemes breaks (text ++ [closing]) :=
        lexemes_mark opens visible.1 [] _
    _ = .mark opening :: lexemes breaks text ++ [.mark closing] :=
        congrArg _ (lexemes_mark closes visible.2 text [])

end Schemata.Text
