import Schemata.Yaml.Grammar
import Schemata.Yaml.Linking
import Schemata.Yaml.Resolution

namespace Schemata.Yaml

/-! The value of a document, in which aliases are replaced by what they stand
for. -/

private abbrev Counting := StateT Nat Option

/-- The node that is written at a place or that the alias there stands for. -/
private def written (linked : LinkedTree) : Tree Nat → Counting (Tree Nat)
  | .aliasOf anchor => do
      modify (· + 1)
      if linked.aliasLimit < (← get) then failure
      (linked.target? anchor : Option (Tree Nat))
  | tree => pure tree

/-- A collection keeps the local tag before it. -/
private def withLocalTag (tag : Option String) (value : Value) : Value :=
  match tag.bind localTagName? with
  | some name => value.withTag name
  | none => value

private def withDistinctKeys : List (Value × Value) → Option (List (Value × Value))
  | [] => some []
  | (key, value) :: rest => do
      let rest ← withDistinctKeys rest
      if Value.hasKey key rest then none else some ((key, value) :: rest)

/-- The value of a tree whose collections reach to a depth. -/
private def compose (linked : LinkedTree) : (depth : Nat) → Tree Nat → Counting Value
  | depth, tree => do
      match ← written linked tree, depth with
      | .scalar properties plain text, _ =>
          (scalarValue? properties.tag plain text : Option Value)
      | .sequence properties items, depth + 1 =>
          let items ← items.mapM (compose linked depth)
          return withLocalTag properties.tag (.sequence items)
      | .mapping properties entries, depth + 1 =>
          let entries ← entries.mapM fun (key, value) => do
            return (← compose linked depth key, ← compose linked depth value)
          let entries ← (withDistinctKeys entries : Option (List (Value × Value)))
          return withLocalTag properties.tag (.mapping entries)
      | _, _ => failure

/-- How many collections may stand inside one another. -/
def documentNesting : Nat := 128

def LinkedTree.value? (linked : LinkedTree) : Option Value :=
  ((compose linked documentNesting linked.root).run 0).map Prod.fst

def Value.parse? (text : String) : Option Value := do
  match ← Tree.parse? text with
  | some tree => (← tree.link?).value?
  | none => some .null

end Schemata.Yaml
