import Schemata.Document.Node

namespace Schemata.Node

/-! Induction on the tree of a document, and what stands at the end of a path of keys. -/

theorem sizeOf_item {location : Location} {items : List Node} {item : Node}
    (member : item ∈ items) : sizeOf item < sizeOf (sequence location items) := by
  have smaller := List.sizeOf_lt_of_mem member
  simp only [sequence.sizeOf_spec]
  omega

theorem sizeOf_value {location : Location} {entries : List (String × Node)}
    {entry : String × Node} (member : entry ∈ entries) :
    sizeOf entry.2 < sizeOf (mapping location entries) := by
  have smaller := List.sizeOf_lt_of_mem member
  obtain ⟨key, value⟩ := entry
  simp only [Prod.mk.sizeOf_spec, mapping.sizeOf_spec] at smaller ⊢
  omega

theorem mem_of_get? {location : Location} {entries : List (String × Node)} {key : String}
    {value : Node} (found : (mapping location entries).get? key = some value) :
    (key, value) ∈ entries :=
  Entries.mem_of_lookup found

theorem sizeOf_get? {node value : Node} {key : String}
    (found : node.get? key = some value) : sizeOf value < sizeOf node := by
  cases node with
  | scalar | sequence => cases found
  | mapping _ entries => exact sizeOf_value (mem_of_get? found)

@[elab_as_elim]
theorem inductionOn {motive : Node → Prop} (node : Node)
    (scalar : ∀ location value, motive (.scalar location value))
    (sequence : ∀ location items, (∀ item ∈ items, motive item) →
      motive (.sequence location items))
    (mapping : ∀ location entries, (∀ entry ∈ entries, motive entry.2) →
      motive (.mapping location entries)) : motive node :=
  match node with
  | .scalar location value => scalar location value
  | .sequence location items =>
      sequence location items fun item _ => inductionOn item scalar sequence mapping
  | .mapping location entries =>
      mapping location entries fun entry _ =>
        inductionOn entry.2 scalar sequence mapping
decreasing_by
  · exact sizeOf_item ‹_›
  · exact sizeOf_value ‹_›

/-- What stands under the keys, one after the other. -/
def below? (node : Node) (keys : List String) : Option Node :=
  keys.foldlM (fun node key => node.get? key) node

theorem below?_cons (node : Node) (key : String) (rest : List String) :
    node.below? (key :: rest) = (node.get? key).bind (·.below? rest) :=
  rfl

/-- The node with another value under the keys, if there is one. -/
def modify (change : Node → Node) : List String → Node → Node
  | [], node => change node
  | key :: rest, .mapping location entries =>
      match entries.lookup key with
      | none => .mapping location entries
      | some held =>
          .mapping location (Entries.put key (modify change rest held) entries)
  | _ :: _, node => node

section

variable (change : Node → Node) (key : String) (rest : List String)

theorem get?_modify (node : Node) :
    (node.modify change (key :: rest)).get? key =
      (node.get? key).map (modify change rest) := by
  cases node with
  | scalar | sequence => rfl
  | mapping location entries =>
      rw [modify]
      cases found : entries.lookup key with
      | none => simp only [get?, entries?, Option.bind_some, found, Option.map_none]
      | some held =>
          simp only [get?, entries?, Option.bind_some, found, Option.map_some,
            Entries.lookup_put_self]

theorem get?_modify_other {other : String} (different : other ≠ key) (node : Node) :
    (node.modify change (key :: rest)).get? other = node.get? other := by
  cases node with
  | scalar | sequence => rfl
  | mapping location entries =>
      rw [modify]
      cases entries.lookup key with
      | none => rfl
      | some held =>
          simp only [get?, entries?, Option.bind_some,
            Entries.lookup_put_other different]

theorem below?_modify (keys : List String) (node : Node) :
    (node.modify change keys).below? keys = (node.below? keys).map change := by
  induction keys generalizing node with
  | nil => cases node <;> rfl
  | cons key rest induction =>
      rw [below?_cons, below?_cons, get?_modify]
      cases node.get? key with
      | none => rfl
      | some held => exact induction held

theorem below?_modify_other {other : String} (different : other ≠ key) (node : Node)
    (others : List String) :
    (node.modify change (key :: rest)).below? (other :: others) =
      node.below? (other :: others) := by
  rw [below?_cons, below?_cons, get?_modify_other change key rest different]

theorem location_modify (node : Node) :
    (node.modify change (key :: rest)).location = node.location := by
  cases node with
  | scalar | sequence => rfl
  | mapping location entries =>
      rw [modify]
      cases entries.lookup key <;> rfl

theorem isNone_entries?_modify (node : Node) :
    (node.modify change (key :: rest)).entries?.isNone = node.entries?.isNone := by
  cases node with
  | scalar | sequence => rfl
  | mapping location entries =>
      rw [modify]
      cases entries.lookup key <;> rfl

end

end Schemata.Node
