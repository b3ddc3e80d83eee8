import Schemata.Yaml.Token

namespace Schemata.Yaml

/-! The nodes of a document as they are written. An anchor and its aliases hold
the same reference: the name in the text, or a number once they are linked. -/

/-- What may be written in front of a node. The tag is in its full form. -/
structure Properties (Reference : Type) where
  anchor : Option Reference
  tag : Option String
  deriving DecidableEq

namespace Properties

def empty : Properties Reference := ⟨none, none⟩

def IsEmpty (properties : Properties Reference) : Prop :=
  properties.anchor = none ∧ properties.tag = none

instance (properties : Properties Reference) : Decidable properties.IsEmpty :=
  decidable_of_iff (properties.anchor.isNone ∧ properties.tag.isNone)
    (by simp [IsEmpty])

end Properties

inductive Tree (Reference : Type) where
  | aliasOf (target : Reference)
  | scalar (properties : Properties Reference) (plain : Bool) (text : String)
  | sequence (properties : Properties Reference) (items : List (Tree Reference))
  | mapping (properties : Properties Reference)
      (entries : List (Tree Reference × Tree Reference))
  deriving Inhabited

namespace Tree

/-- The node where nothing is written. -/
def absent : Tree Reference := .scalar .empty true ""

def properties : Tree Reference → Properties Reference
  | aliasOf _ => .empty
  | scalar properties .. | sequence properties _ | mapping properties _ => properties

end Tree

end Schemata.Yaml
