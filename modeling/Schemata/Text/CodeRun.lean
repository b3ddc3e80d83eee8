namespace Schemata.Text

/-! Sets of code points as increasing runs. A run with stride two describes the
alternation of capital and small letters that most scripts use. -/

structure CodeRun where
  first : Nat
  last : Nat
  stride : Nat

def CodeRun.Covers (run : CodeRun) (code : Nat) : Prop :=
  run.first ≤ code ∧ code ≤ run.last ∧ (code - run.first) % run.stride = 0

instance (run : CodeRun) (code : Nat) : Decidable (run.Covers code) :=
  inferInstanceAs (Decidable (_ ∧ _ ∧ _))

/-- Membership in runs listed in increasing order, which allows the search to
stop at the first run that starts too late. -/
def coveredBy : List CodeRun → Nat → Bool
  | [], _ => false
  | run :: rest, code =>
      if code < run.first then false
      else if run.Covers code then true
      else coveredBy rest code

def offsetIn : List (CodeRun × Int) → Nat → Option Int
  | [], _ => none
  | (run, offset) :: rest, code =>
      if code < run.first then none
      else if run.Covers code then some offset
      else offsetIn rest code

end Schemata.Text
