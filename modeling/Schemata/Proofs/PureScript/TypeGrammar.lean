import Schemata.Proofs.Text.Lexeme

namespace Schemata.PureScript

open Text

inductive TypeExpression where
  | word (text : List Char)
  | applied (function argument : TypeExpression)
  deriving DecidableEq

inductive Extent where
  | atom
  | application

/-- Types side by side are applied from the left. Each argument is an atom: a word or a
group. -/
inductive Derives : Extent → List Lexeme → TypeExpression → Prop
  | word (text : List Char) : Derives .atom [.word text] (.word text)
  | group {lexemes : List Lexeme} {inner : TypeExpression}
      (inside : Derives .application lexemes inner) :
      Derives .atom (.mark '(' :: lexemes ++ [.mark ')']) inner
  | single {lexemes : List Lexeme} {whole : TypeExpression}
      (atom : Derives .atom lexemes whole) : Derives .application lexemes whole
  | applied {first second : List Lexeme} {function argument : TypeExpression}
      (before : Derives .application first function)
      (after : Derives .atom second argument) :
      Derives .application (first ++ second) (.applied function argument)

/-- What is read of the group that is open, and of those around it. -/
structure Reader where
  current : Option TypeExpression
  outer : List (Option TypeExpression)

namespace Reader

/-- The application of what is read so far to one more atom. -/
def extended : Option TypeExpression → TypeExpression → TypeExpression
  | none, atom => atom
  | some function, atom => .applied function atom

def step : Lexeme → Reader → Option Reader
  | .word text, ⟨current, outer⟩ => some ⟨some (extended current (.word text)), outer⟩
  | .mark '(', ⟨current, outer⟩ => some ⟨none, current :: outer⟩
  | .mark ')', ⟨some inner, current :: outer⟩ =>
      some ⟨some (extended current inner), outer⟩
  | _, _ => none

def run (lexemes : List Lexeme) (reader : Reader) : Option Reader :=
  lexemes.foldlM (fun reader lexeme => step lexeme reader) reader

theorem run_append (first second : List Lexeme) (reader : Reader) :
    run (first ++ second) reader = (run first reader).bind (run second) :=
  List.foldlM_append

end Reader

open Reader

/-- How a reader gets over an expression of the extent. -/
def Runs : Extent → List Lexeme → TypeExpression → Prop
  | .atom, lexemes, tree => ∀ current outer,
      run lexemes ⟨current, outer⟩ = some ⟨some (extended current tree), outer⟩
  | .application, lexemes, tree => ∀ outer,
      run lexemes ⟨none, outer⟩ = some ⟨some tree, outer⟩

theorem runs_of_derives {extent : Extent} {lexemes : List Lexeme} {tree : TypeExpression}
    (derives : Derives extent lexemes tree) : Runs extent lexemes tree := by
  induction derives with
  | word text =>
      intro current outer
      rfl
  | @group lexemes inner _ induction =>
      intro current outer
      have inside := induction (current :: outer)
      change run (lexemes ++ [.mark ')']) ⟨none, current :: outer⟩ = _
      rw [run_append, inside]
      rfl
  | single _ induction => exact induction none
  | applied _ _ first second =>
      intro outer
      rw [run_append, first, Option.bind_some, second]
      rfl

/-- A text has one reading at most. -/
theorem Derives.unique {lexemes : List Lexeme} {tree other : TypeExpression}
    (derives : Derives .application lexemes tree)
    (also_ : Derives .application lexemes other) : tree = other := by
  have runs := runs_of_derives derives []
  rw [runs_of_derives also_] at runs
  cases runs
  rfl

end Schemata.PureScript
