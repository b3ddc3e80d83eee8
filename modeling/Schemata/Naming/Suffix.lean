import Schemata.Number.Notation

namespace Schemata

/-! Numbers after names that are in use. -/

def suffixed (base : String) (number : Nat) : String :=
  base ++ String.ofList (naturalText number)

/-- The base with the least number from two on that makes it an unused name. Among
one more candidates than there are used names, one is free. -/
def freeSuffixed (used : List String) (base : String) : String :=
  ((List.range' 2 (used.length + 1)).findSome? fun number =>
      let candidate := suffixed base number
      if candidate ∈ used then none else some candidate).getD base

end Schemata
