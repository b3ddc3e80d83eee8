import Schemata.Model.TypeRef
import Schemata.Proofs.Text.CaseMapping

namespace Schemata

/-! The words that a target language gives a meaning of its own, and the meanings of types that
are written in it. -/

/-- The type with other primitive types in it. -/
def TypeRef.mapPrimitives (change : Primitive → Primitive) : TypeRef → TypeRef
  | primitive kind => primitive (change kind)
  | named name => named name
  | array element => array (element.mapPrimitives change)
  | map values => map (values.mapPrimitives change)
  | untypedMap => untypedMap
  | nullable inner => nullable (inner.mapPrimitives change)

structure Vocabulary where
  primitives : List (String × Primitive)
  /-- Words that are no types when they stand alone. -/
  others : List String

namespace Vocabulary

variable (vocabulary : Vocabulary)

def words : List String :=
  vocabulary.primitives.map Prod.fst ++ vocabulary.others

/-- The type that a word stands for alone. -/
def type? (word : String) : Option TypeRef :=
  match vocabulary.primitives.lookup word with
  | some kind => some (.primitive kind)
  | none => if word ∈ vocabulary.others then none else some (.named word)

/-- A name of letters and digits that the language has no other use for. -/
structure Admits (name : String) : Prop where
  nonempty : name ≠ ""
  letters : Text.IsWordText name.toList
  unused : name ∉ vocabulary.words

variable {vocabulary} {name : String}

theorem Admits.type? (admits : vocabulary.Admits name) :
    vocabulary.type? name = some (.named name) := by
  have ⟨notPrimitive, notOther⟩ := not_or.mp (mt List.mem_append.mpr admits.unused)
  rw [Vocabulary.type?, Entries.lookup_eq_none_iff.mpr notPrimitive]
  exact if_neg notOther

end Vocabulary

end Schemata
