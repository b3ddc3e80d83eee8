import Schemata.Entries
import Schemata.Yaml.Tree

namespace Schemata.Yaml

/-! Linking of aliases to the nodes they stand for. -/

/-- The number that each name stands for at a place of the document. -/
abbrev AnchorNames := List (String × Nat)

/-- An anchor is numbered by the count of names in use before it, and its name
stands for that number from there on. -/
private def linkAnchor (names : AnchorNames) :
    Option String → Option Nat × AnchorNames
  | none => (none, names)
  | some name => (some names.length, Entries.put name names.length names)

private def linkProperties (names : AnchorNames) (properties : Properties String) :
    Properties Nat × AnchorNames :=
  let (anchor, names) := linkAnchor names properties.anchor
  (⟨anchor, properties.tag⟩, names)

mutual
/-- Fails for an alias without an anchor before it. -/
def Tree.linkFrom? (names : AnchorNames) :
    Tree String → Option (Tree Nat × AnchorNames)
  | .aliasOf name => do return (.aliasOf (← names.lookup name), names)
  | .scalar properties plain text =>
      let (properties, names) := linkProperties names properties
      some (.scalar properties plain text, names)
  | .sequence properties items => do
      let (properties, names) := linkProperties names properties
      let (items, names) ← linkItems names items
      return (.sequence properties items, names)
  | .mapping properties entries => do
      let (properties, names) := linkProperties names properties
      let (entries, names) ← linkEntries names entries
      return (.mapping properties entries, names)

private def linkItems (names : AnchorNames) :
    List (Tree String) → Option (List (Tree Nat) × AnchorNames)
  | [] => some ([], names)
  | item :: rest => do
      let (item, names) ← item.linkFrom? names
      let (rest, names) ← linkItems names rest
      return (item :: rest, names)

private def linkEntries (names : AnchorNames) :
    List (Tree String × Tree String) →
      Option (List (Tree Nat × Tree Nat) × AnchorNames)
  | [] => some ([], names)
  | (key, value) :: rest => do
      let (key, names) ← key.linkFrom? names
      let (value, names) ← value.linkFrom? names
      let (rest, names) ← linkEntries names rest
      return ((key, value) :: rest, names)
end

private def anchorOf (tree : Tree Nat) : List (Nat × Tree Nat) :=
  (tree.properties.anchor.map fun anchor => (anchor, tree)).toList

mutual
/-- The anchored nodes of a tree in the order in which they begin. -/
def Tree.anchored : Tree Nat → List (Nat × Tree Nat)
  | .aliasOf _ => []
  | .scalar properties plain text => anchorOf (.scalar properties plain text)
  | .sequence properties items =>
      anchorOf (.sequence properties items) ++ anchoredItems items
  | .mapping properties entries =>
      anchorOf (.mapping properties entries) ++ anchoredEntries entries

private def anchoredItems : List (Tree Nat) → List (Nat × Tree Nat)
  | [] => []
  | item :: rest => item.anchored ++ anchoredItems rest

private def anchoredEntries : List (Tree Nat × Tree Nat) → List (Nat × Tree Nat)
  | [] => []
  | (key, value) :: rest =>
      key.anchored ++ value.anchored ++ anchoredEntries rest
end

mutual
/-- The count of marks in a tree: one for an alias or a scalar, two for the ends
of a collection. -/
def Tree.marks : Tree Nat → Nat
  | .aliasOf _ | .scalar .. => 1
  | .sequence _ items => 2 + itemMarks items
  | .mapping _ entries => 2 + entryMarks entries

private def itemMarks : List (Tree Nat) → Nat
  | [] => 0
  | item :: rest => item.marks + itemMarks rest

private def entryMarks : List (Tree Nat × Tree Nat) → Nat
  | [] => 0
  | (key, value) :: rest => key.marks + value.marks + entryMarks rest
end

structure LinkedTree where
  root : Tree Nat
  anchored : List (Nat × Tree Nat)

def Tree.link? (tree : Tree String) : Option LinkedTree := do
  let (root, _) ← tree.linkFrom? []
  return ⟨root, root.anchored⟩

namespace LinkedTree

/-- The node that an alias stands for. Of several nodes with one number it is the
last that begins. -/
def target? (linked : LinkedTree) (anchor : Nat) : Option (Tree Nat) :=
  linked.anchored.reverse.lookup anchor

/-- How many aliases may be followed while the document is read. -/
def aliasLimit (linked : LinkedTree) : Nat := 100 * linked.root.marks

end LinkedTree

end Schemata.Yaml
