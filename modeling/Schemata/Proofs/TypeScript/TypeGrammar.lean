import Schemata.Proofs.Text.Lexeme

namespace Schemata.TypeScript

open Text

inductive TypeExpression where
  | word (text : List Char)
  | array (element : TypeExpression)
  | generic (name : List Char) (key values : TypeExpression)
  | either (left right : TypeExpression)
  deriving DecidableEq

inductive Binding where
  | tight
  | loose

/-- Brackets bind tighter than bars, and what bars separate is grouped from the left. -/
inductive Derives : Binding → List Lexeme → TypeExpression → Prop
  | word (text : List Char) : Derives .tight [.word text] (.word text)
  | group {lexemes : List Lexeme} {inner : TypeExpression} (inside : Derives .loose lexemes inner) :
      Derives .tight (.mark '(' :: lexemes ++ [.mark ')']) inner
  | array {lexemes : List Lexeme} {element : TypeExpression}
      (operand : Derives .tight lexemes element) :
      Derives .tight (lexemes ++ [.mark '[', .mark ']']) (.array element)
  | generic (name : List Char) {first second : List Lexeme} {key values : TypeExpression}
      (left : Derives .loose first key) (right : Derives .loose second values) :
      Derives .tight (.word name :: .mark '<' :: first ++ .mark ',' :: second ++ [.mark '>'])
        (.generic name key values)
  | operand {lexemes : List Lexeme} {whole : TypeExpression}
      (tight : Derives .tight lexemes whole) : Derives .loose lexemes whole
  | either {first second : List Lexeme} {left right : TypeExpression}
      (before : Derives .loose first left) (after : Derives .tight second right) :
      Derives .loose (first ++ .mark '|' :: second) (.either left right)

/-- What is read since the last opening: what stands before the last bar, and what after it. -/
structure Pending where
  before : Option TypeExpression
  operand : Option TypeExpression

def Pending.none : Pending := ⟨.none, .none⟩

def Pending.whole? : Pending → Option TypeExpression
  | ⟨.none, operand⟩ => operand
  | ⟨some left, operand⟩ => operand.map (.either left)

/-- What is open, with what is known of it. -/
inductive Opening where
  | group
  | brackets (element : TypeExpression)
  | key (name : List Char)
  | values (name : List Char) (key : TypeExpression)

structure Reader where
  pending : Pending
  /-- With each opening what stands before the bar that precedes it. -/
  openings : List (Opening × Option TypeExpression)

namespace Reader

def step : Lexeme → Reader → Option Reader
  | .word text, ⟨⟨before, none⟩, openings⟩ => some ⟨⟨before, some (.word text)⟩, openings⟩
  | .mark '(', ⟨⟨before, none⟩, openings⟩ => some ⟨.none, (.group, before) :: openings⟩
  | .mark ')', ⟨pending, (.group, before) :: openings⟩ => do
      return ⟨⟨before, some (← pending.whole?)⟩, openings⟩
  | .mark '[', ⟨⟨before, some element⟩, openings⟩ =>
      some ⟨.none, (.brackets element, before) :: openings⟩
  | .mark ']', ⟨⟨none, none⟩, (.brackets element, before) :: openings⟩ =>
      some ⟨⟨before, some (.array element)⟩, openings⟩
  | .mark '<', ⟨⟨before, some (.word name)⟩, openings⟩ =>
      some ⟨.none, (.key name, before) :: openings⟩
  | .mark ',', ⟨pending, (.key name, before) :: openings⟩ => do
      return ⟨.none, (.values name (← pending.whole?), before) :: openings⟩
  | .mark '>', ⟨pending, (.values name key, before) :: openings⟩ => do
      return ⟨⟨before, some (.generic name key (← pending.whole?))⟩, openings⟩
  | .mark '|', ⟨pending, openings⟩ => do
      return ⟨⟨some (← pending.whole?), none⟩, openings⟩
  | _, _ => none

def run (lexemes : List Lexeme) (reader : Reader) : Option Reader :=
  lexemes.foldlM (fun reader lexeme => step lexeme reader) reader

theorem run_append (first second : List Lexeme) (reader : Reader) :
    run (first ++ second) reader = (run first reader).bind (run second) :=
  List.foldlM_append

theorem run_cons (lexeme : Lexeme) (rest : List Lexeme) (reader : Reader) :
    run (lexeme :: rest) reader = (step lexeme reader).bind (run rest) :=
  rfl

section

variable {pending : Pending} {whole : TypeExpression} (read : pending.whole? = some whole)
  (before : Option TypeExpression) (openings : List (Opening × Option TypeExpression))

include read

theorem step_group :
    step (.mark ')') ⟨pending, (.group, before) :: openings⟩ =
      some ⟨⟨before, some whole⟩, openings⟩ := by
  rw [step, read]
  rfl

theorem step_key (name : List Char) :
    step (.mark ',') ⟨pending, (.key name, before) :: openings⟩ =
      some ⟨.none, (.values name whole, before) :: openings⟩ := by
  rw [step, read]
  rfl

theorem step_values (name : List Char) (key : TypeExpression) :
    step (.mark '>') ⟨pending, (.values name key, before) :: openings⟩ =
      some ⟨⟨before, some (.generic name key whole)⟩, openings⟩ := by
  rw [step, read]
  rfl

theorem step_bar :
    step (.mark '|') ⟨pending, openings⟩ = some ⟨⟨some whole, none⟩, openings⟩ := by
  rw [step, read]
  rfl

end

end Reader

/-- How a reader gets over an expression of the binding. -/
def Runs : Binding → List Lexeme → TypeExpression → Prop
  | .tight, lexemes, tree => ∀ before openings,
      Reader.run lexemes ⟨⟨before, none⟩, openings⟩ = some ⟨⟨before, some tree⟩, openings⟩
  | .loose, lexemes, tree => ∀ openings, ∃ pending : Pending,
      Reader.run lexemes ⟨.none, openings⟩ = some ⟨pending, openings⟩ ∧
        pending.whole? = some tree

open Reader

theorem runs_of_derives {binding : Binding} {lexemes : List Lexeme} {tree : TypeExpression}
    (derives : Derives binding lexemes tree) : Runs binding lexemes tree := by
  induction derives with
  | word text =>
      intro before openings
      rfl
  | @group lexemes _ _ induction =>
      intro before openings
      obtain ⟨pending, runs, whole⟩ := induction ((.group, before) :: openings)
      change run (lexemes ++ [.mark ')']) ⟨.none, (.group, before) :: openings⟩ = _
      rw [run_append, runs, Option.bind_some, run_cons, step_group whole]
      rfl
  | array _ induction =>
      intro before openings
      rw [run_append, induction]
      rfl
  | @generic name first second _ _ _ _ left right =>
      intro before openings
      obtain ⟨pending, runs, key⟩ := left ((.key name, before) :: openings)
      obtain ⟨later, onwards, values⟩ := right ((.values name _, before) :: openings)
      rw [List.append_assoc]
      change run (first ++ .mark ',' :: (second ++ [.mark '>']))
        ⟨.none, (.key name, before) :: openings⟩ = _
      rw [run_append, runs, Option.bind_some, run_cons, step_key key, Option.bind_some,
        run_append, onwards, Option.bind_some, run_cons, step_values values]
      rfl
  | operand _ induction =>
      intro openings
      exact ⟨_, induction none openings, rfl⟩
  | either _ _ first second =>
      intro openings
      obtain ⟨pending, runs, whole⟩ := first openings
      refine ⟨⟨some _, some _⟩, ?_, rfl⟩
      rw [run_append, runs, Option.bind_some, run_cons, step_bar whole, Option.bind_some,
        second]

/-- A text has one reading at most. -/
theorem Derives.unique {lexemes : List Lexeme} {tree other : TypeExpression}
    (derives : Derives .loose lexemes tree) (also_ : Derives .loose lexemes other) :
    tree = other := by
  obtain ⟨pending, runs, whole⟩ := runs_of_derives derives []
  obtain ⟨same, again, read⟩ := runs_of_derives also_ []
  rw [runs] at again
  cases again
  exact Option.some.inj (whole.symm.trans read)

end Schemata.TypeScript
