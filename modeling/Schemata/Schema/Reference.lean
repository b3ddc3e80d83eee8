import Schemata.CompileError

namespace Schemata.Reference

/-! Pointers from one schema to another of the same document. -/

/-- The sections of a document that may declare schemas, the preferred one first. -/
inductive Section where
  | components
  | defs
  | definitions
  deriving DecidableEq

def Section.all : List Section := [.components, .defs, .definitions]

def Section.keys : Section → List String
  | components => ["components", "schemas"]
  | defs => ["$defs"]
  | definitions => ["definitions"]

/-- What the pointers into a section begin with. -/
def Section.stem (section_ : Section) : List Char :=
  (Location.mk section_.keys).pointer ++ ['/']

def unescape : List Char → List Char
  | '~' :: '0' :: rest => '~' :: unescape rest
  | '~' :: '1' :: rest => '/' :: unescape rest
  | char :: rest => char :: unescape rest
  | [] => []

private def below (stem pointer : List Char) : Option (List Char) :=
  if stem.isPrefixOf pointer then some (pointer.drop stem.length) else none

/-- The name of the schema that a pointer designates: the one segment after a
section. -/
def target? (pointer : List Char) : Option (List Char) :=
  Section.all.findSome? fun section_ => do
    let segment ← below section_.stem pointer
    if segment ≠ [] ∧ '/' ∉ segment then some (unescape segment) else none

theorem below_of_target? {pointer name : List Char} (found : target? pointer = some name) :
    ∃ section_ segment, pointer = Section.stem section_ ++ segment ∧ segment ≠ [] ∧
      '/' ∉ segment ∧ name = unescape segment := by
  obtain ⟨section_, _, here⟩ := List.exists_of_findSome?_eq_some found
  obtain ⟨segment, inside, named⟩ := Option.bind_eq_some_iff.mp here
  rw [below] at inside
  split at inside
  · next starts =>
    cases inside
    have whole := List.prefix_iff_eq_append.mp (List.isPrefixOf_iff_prefix.mp starts)
    split at named
    · next proper =>
      cases named
      exact ⟨section_, _, whole.symm, proper.1, proper.2, rfl⟩
    · cases named
  · cases inside

/-- No section's stem begins another's, so it is this section that counts. -/
theorem target?_below (section_ : Section) {segment : List Char} (proper : segment ≠ [])
    (free : '/' ∉ segment) :
    target? (section_.stem ++ segment) = some (unescape segment) := by
  have inside : ∀ other : Section, below other.stem (section_.stem ++ segment) =
      if other = section_ then some segment else none := by
    intro other
    cases other <;> cases section_ <;> rfl
  rw [target?]
  simp only [inside]
  cases section_ <;> simp [Section.all, proper, free]

def read (pointer : String) (location : Location) :
    Except CompileError String :=
  match target? pointer.toList with
  | some name => .ok (String.ofList name)
  | none => .error (.malformed location (.unsupportedReference pointer))

theorem below_of_read {pointer name : String} {location : Location}
    (reads : read pointer location = .ok name) :
    ∃ section_ segment, pointer.toList = Section.stem section_ ++ segment ∧
      segment ≠ [] ∧ '/' ∉ segment ∧ name = String.ofList (unescape segment) := by
  rw [read] at reads
  split at reads
  · next found =>
    cases reads
    obtain ⟨section_, segment, whole, proper, free, rfl⟩ := below_of_target? found
    exact ⟨section_, segment, whole, proper, free, rfl⟩
  · cases reads

end Schemata.Reference
