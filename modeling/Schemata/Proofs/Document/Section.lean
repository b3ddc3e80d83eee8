import Schemata.Proofs.Document.Node
import Schemata.Schema.Forest

namespace Schemata

/-! The section of a document that the schemas are taken from. -/

namespace Forest

def located? (document : Node) : Option Reference.Section :=
  Reference.Section.all.find? fun section_ => (document.below? section_.keys).isSome

theorem findSome?_eq_bind_find? (document : Node) (sections : List Reference.Section) :
    (sections.findSome? fun section_ => document.below? section_.keys) =
      (sections.find? fun section_ => (document.below? section_.keys).isSome).bind
        fun section_ => document.below? section_.keys := by
  induction sections with
  | nil => rfl
  | cons first rest induction =>
      rw [List.findSome?_cons, List.find?_cons]
      cases found : document.below? first.keys with
      | none => exact induction
      | some held => exact found.symm

theorem section?_eq_below? (document : Node) :
    Forest.section? document =
      (located? document).bind fun section_ => document.below? section_.keys :=
  findSome?_eq_bind_find? document Reference.Section.all

theorem below?_of_located {document : Node} {section_ : Reference.Section}
    (located : located? document = some section_) :
    ∃ held, document.below? section_.keys = some held := by
  rw [located?] at located
  have here := List.find?_some located
  exact Option.isSome_iff_exists.mp here

end Forest

end Schemata
