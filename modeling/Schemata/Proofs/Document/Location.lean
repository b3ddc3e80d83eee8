import Mathlib.Data.List.Flatten
import Schemata.Proofs.Document.Pointer
import Schemata.Proofs.Naming.Registry

namespace Schemata

/-! The nodes of a document, and where they stand in it. -/

theorem Location.text_injective : Function.Injective Location.text := by
  intro left right same
  have pointers := congrArg (fun text => Pointer.segments? text.toList) same
  simp only [text, String.toList_ofList, Pointer.segments?_pointer] at pointers
  injection pointers with segments
  exact congrArg Location.mk segments

namespace Node

/-- What is right below a node, each part with the segment that leads to it. -/
def parts : Node → List (String × Node)
  | .scalar .. => []
  | .sequence _ items =>
      items.mapIdx fun index item => (String.ofList (naturalText index), item)
  | .mapping _ entries => entries

theorem sizeOf_part {node : Node} {part : String × Node} (member : part ∈ node.parts) :
    sizeOf part.2 < sizeOf node := by
  cases node with
  | scalar => cases member
  | sequence _ items =>
      obtain ⟨index, bounded, rfl⟩ := List.mem_mapIdx.mp member
      exact sizeOf_item (List.getElem_mem bounded)
  | mapping => exact sizeOf_value member

theorem part_of_get? {node held : Node} {key : String}
    (found : node.get? key = some held) : (key, held) ∈ node.parts := by
  cases node with
  | scalar | sequence => cases found
  | mapping => exact mem_of_get? found

theorem part_of_item (location : Location) {items : List Node} {item : Node}
    (member : item ∈ items) :
    ∃ segment, (segment, item) ∈ (sequence location items).parts := by
  obtain ⟨index, bounded, rfl⟩ := List.mem_iff_getElem.mp member
  exact ⟨_, List.mem_mapIdx.mpr ⟨index, bounded, rfl⟩⟩

theorem nodup_indices (location : Location) (items : List Node) :
    ((sequence location items).parts.map Prod.fst).Nodup := by
  rw [List.Nodup, List.pairwise_iff_getElem]
  intro first second _ _ earlier same
  simp only [parts, List.getElem_map, List.getElem_mapIdx, String.ofList_inj] at same
  have equal := naturalText_injective same
  omega

theorem child?_eq_lookup (node : Node) (segment : String) :
    node.child? segment = node.parts.lookup segment := by
  cases node with
  | scalar => rfl
  | mapping => rfl
  | sequence _ items =>
      rw [child?, parts, List.mapIdx_eq_zipIdx_map]
      induction items.zipIdx with
      | nil => rfl
      | cons first rest induction =>
          rw [List.findSome?_cons, List.map_cons, List.lookup_cons, induction]
          by_cases same : segment = String.ofList (naturalText first.2)
          · simp [same]
          · have different : naturalText first.2 ≠ segment.toList := by
              rintro spelled
              exact same (by rw [spelled, String.ofList_toList])
            simp [different, beq_eq_false_iff_ne.mpr same]

/-- All nodes of a tree, each after the ones below it. -/
def nodes (node : Node) : List Node :=
  (node.parts.attach.flatMap fun part => part.1.2.nodes) ++ [node]
termination_by node
decreasing_by exact sizeOf_part part.2

def inside (node : Node) : List Node :=
  node.parts.flatMap fun part => part.2.nodes

theorem nodes_eq (node : Node) : node.nodes = node.inside ++ [node] := by
  rw [nodes, List.flatMap_subtype (g := fun part => part.2.nodes) (fun _ _ => rfl),
    List.unattach_attach, inside]

theorem nodes_scalar (location : Location) (value : Scalar) :
    (scalar location value).nodes = [scalar location value] :=
  nodes_eq _

theorem nodes_sequence (location : Location) (items : List Node) :
    (sequence location items).nodes = items.flatMap nodes ++ [sequence location items] := by
  rw [nodes_eq, inside, parts, List.mapIdx_eq_zipIdx_map, List.flatMap_map]
  congr 1
  rw [← List.flatMap_map Prod.fst nodes, List.zipIdx_map_fst]

theorem nodes_mapping (location : Location) (entries : List (String × Node)) :
    (mapping location entries).nodes =
      (entries.flatMap fun entry => entry.2.nodes) ++ [mapping location entries] :=
  nodes_eq _

theorem mem_nodes_self (node : Node) : node ∈ node.nodes := by
  rw [nodes_eq]
  exact List.mem_append_right _ (List.mem_singleton_self node)

theorem inside_sublist (node : Node) : node.inside.Sublist node.nodes := by
  rw [nodes_eq]
  exact List.sublist_append_left _ _

theorem part_sublist {node : Node} {part : String × Node} (member : part ∈ node.parts) :
    part.2.nodes.Sublist node.inside := by
  have single := List.singleton_sublist.mpr member
  simpa [inside] using single.flatMap fun part => part.2.nodes

theorem nodes_of_part {node : Node} {part : String × Node} (member : part ∈ node.parts) :
    part.2.nodes.Sublist node.nodes :=
  (part_sublist member).trans node.inside_sublist

theorem nodes_subset {node inner : Node} (member : inner ∈ node.nodes) :
    inner.nodes ⊆ node.nodes := by
  rw [nodes_eq] at member
  rcases List.mem_append.mp member with below | own
  · obtain ⟨part, here, below⟩ := List.mem_flatMap.mp below
    exact List.Subset.trans (nodes_subset below) (nodes_of_part here).subset
  · rw [List.mem_singleton.mp own]
    exact List.Subset.refl _
termination_by sizeOf node
decreasing_by exact sizeOf_part here

section

variable {document node inner : Node} (within : node ∈ document.nodes)

include within

theorem part_mem_nodes {part : String × Node} (member : part ∈ node.parts) :
    part.2 ∈ document.nodes := by
  apply nodes_subset within
  apply (nodes_of_part member).subset
  exact mem_nodes_self part.2

theorem get?_mem_nodes {key : String} (found : node.get? key = some inner) :
    inner ∈ document.nodes :=
  part_mem_nodes within (part_of_get? found)

theorem item_mem_nodes {items : List Node} (listed : node.items? = some items)
    (member : inner ∈ items) : inner ∈ document.nodes := by
  cases node with
  | scalar | mapping => cases listed
  | sequence location _ =>
      cases listed
      obtain ⟨segment, part⟩ := part_of_item location member
      exact part_mem_nodes within part

end

/-- The parts of the node have different segments, and each stands at the end of its own. -/
inductive Located : Node → Prop
  | intro {node : Node} (distinct : (node.parts.map Prod.fst).Nodup)
      (placed : ∀ part ∈ node.parts, part.2.location = node.location.child part.1)
      (each : ∀ part ∈ node.parts, Located part.2) : Located node

theorem located_of_made (made : Location → Node → Prop)
    (placed : ∀ {location node}, made location node → node.location = location)
    (parts : ∀ {location node}, made location node → (node.parts.map Prod.fst).Nodup ∧
      ∀ part ∈ node.parts, made (location.child part.1) part.2)
    {location : Location} {node : Node} (start : made location node) : node.Located := by
  obtain ⟨distinct, below⟩ := parts start
  have here := placed start
  refine .intro distinct ?_ ?_
  · intro part member
    rw [here]
    exact placed (below part member)
  · intro part member
    exact located_of_made made placed parts (below part member)
termination_by node
decreasing_by exact sizeOf_part member

namespace Located

theorem child? {node : Node} (located : node.Located) {part : String × Node}
    (member : part ∈ node.parts) : node.child? part.1 = some part.2 := by
  obtain ⟨distinct, _, _⟩ := located
  rw [child?_eq_lookup, Entries.lookup_eq_some_iff distinct]
  exact member

theorem at? {node inner : Node} (located : node.Located) (member : inner ∈ node.nodes) :
    ∃ segments, inner.location.segments = node.location.segments ++ segments ∧
      node.at? segments = some inner := by
  induction located with
  | @intro node distinct placed each induction =>
      rw [nodes_eq] at member
      rcases List.mem_append.mp member with below | own
      · obtain ⟨part, here, below⟩ := List.mem_flatMap.mp below
        obtain ⟨segments, ends, found⟩ := induction part here below
        refine ⟨part.1 :: segments, ?_, ?_⟩
        · rw [ends, placed part here, Location.child, List.append_assoc,
            List.singleton_append]
        · rw [Node.at?, List.foldlM_cons, child? ⟨distinct, placed, each⟩ here]
          exact found
      · rw [List.mem_singleton.mp own]
        exact ⟨[], (List.append_nil _).symm, rfl⟩

theorem of_mem {node inner : Node} (located : node.Located) (member : inner ∈ node.nodes) :
    inner.Located := by
  induction located with
  | @intro node distinct placed each induction =>
      rw [nodes_eq] at member
      rcases List.mem_append.mp member with below | own
      · obtain ⟨part, here, below⟩ := List.mem_flatMap.mp below
        exact induction part here below
      · rw [List.mem_singleton.mp own]
        exact .intro distinct placed each

theorem nodup_locations {node : Node} (located : node.Located) :
    (node.nodes.map location).Nodup := by
  induction located with
  | @intro node distinct placed each induction =>
      have inside : ∀ part ∈ node.parts, ∀ inner ∈ part.2.nodes, ∃ segments,
          inner.location.segments = node.location.segments ++ part.1 :: segments := by
        intro part here inner below
        obtain ⟨segments, ends, _⟩ := (each part here).at? below
        refine ⟨segments, ?_⟩
        rw [ends, placed part here, Location.child, List.append_assoc,
          List.singleton_append]
      rw [nodes_eq, List.map_append, Node.inside, List.map_flatMap, List.nodup_append']
      refine ⟨List.nodup_flatMap.mpr ⟨induction, ?_⟩, List.nodup_singleton _, ?_⟩
      · refine (List.pairwise_map.mp distinct).imp_of_mem ?_
        intro first second left right different location here there
        obtain ⟨inner, below, rfl⟩ := List.mem_map.mp here
        obtain ⟨other, under, same⟩ := List.mem_map.mp there
        obtain ⟨segments, ends⟩ := inside first left inner below
        obtain ⟨others, stops⟩ := inside second right other under
        rw [same, ends, List.append_cancel_left_eq] at stops
        exact different (List.cons.inj stops).1
      · intro location below own
        obtain ⟨part, here, deeper⟩ := List.mem_flatMap.mp below
        obtain ⟨inner, among, rfl⟩ := List.mem_map.mp deeper
        obtain ⟨segments, ends⟩ := inside part here inner among
        rw [List.mem_singleton.mp own] at ends
        simp at ends

end Located

theorem mem_nodes_of_at? {node inner : Node} {segments : List String}
    (found : node.at? segments = some inner) : inner ∈ node.nodes := by
  induction segments generalizing node with
  | nil =>
      cases found
      exact mem_nodes_self _
  | cons segment rest induction =>
      obtain ⟨middle, here, later⟩ := Option.bind_eq_some_iff.mp found
      rw [child?_eq_lookup] at here
      exact (nodes_of_part (Entries.mem_of_lookup here)).subset (induction later)

end Node

end Schemata
