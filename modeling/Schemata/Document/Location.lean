import Schemata.Number.Notation

namespace Schemata

/-! Locations in a document: JSON pointers in fragment form, such as
`#/components/schemas/Pet`. -/

/-- The keys and indices on the way from the root. -/
structure Location where
  segments : List String
  deriving DecidableEq, Inhabited

namespace Location

def root : Location := ⟨[]⟩

def child (location : Location) (key : String) : Location :=
  ⟨location.segments ++ [key]⟩

def item (location : Location) (index : Nat) : Location :=
  location.child (String.ofList (naturalText index))

/-- A slash separates segments and a tilde begins an escape, so neither stands for
itself. -/
def escape (segment : List Char) : List Char :=
  segment.flatMap fun char =>
    match char with
    | '~' => ['~', '0']
    | '/' => ['~', '1']
    | char => [char]

def pointer (location : Location) : List Char :=
  '#' :: location.segments.flatMap fun segment => '/' :: escape segment.toList

def text (location : Location) : String :=
  String.ofList location.pointer

end Location

end Schemata
