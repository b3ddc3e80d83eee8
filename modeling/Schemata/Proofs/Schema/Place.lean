import Schemata.Proofs.Document.Location
import Schemata.Proofs.Schema.Subschemas

namespace Schemata

/-! Every schema has the place of a node that is read on the way to it, and different ones
have different places. -/

namespace Node

open Relation

/-- The nodes that are read on the way to the schema of a node, and last the node. -/
def schemaNodes (node : Node) : List Node :=
  (node.subschemas.attach.flatMap fun part => part.1.schemaNodes) ++ [node]
termination_by node
decreasing_by exact sizeOf_subschemas part.2

theorem schemaNodes_eq (node : Node) :
    node.schemaNodes = node.subschemas.flatMap schemaNodes ++ [node] := by
  rw [schemaNodes, List.flatMap_subtype (g := schemaNodes) (fun _ _ => rfl),
    List.unattach_attach]

theorem schemaNodes_of_leaves {node : Node}
    (leaves : ∀ part ∈ node.subschemas, part.subschemas = []) :
    node.schemaNodes = node.subschemas ++ [node] := by
  have single : ∀ part ∈ node.subschemas, part.schemaNodes = [part] := by
    intro part member
    rw [schemaNodes_eq, leaves part member, List.flatMap_nil, List.nil_append]
  rw [schemaNodes_eq, List.flatMap_congr single, List.flatMap_singleton']

theorem reads_of_mem_schemaNodes {node inner : Node} (member : inner ∈ node.schemaNodes) :
    ReflTransGen (fun outer inner => inner ∈ outer.subschemas) node inner := by
  rw [schemaNodes_eq] at member
  rcases List.mem_append.mp member with below | own
  · obtain ⟨part, here, below⟩ := List.mem_flatMap.mp below
    exact .head here (reads_of_mem_schemaNodes below)
  · rw [List.mem_singleton.mp own]
termination_by sizeOf node
decreasing_by exact sizeOf_subschemas here

/-! What is read as a schema stands below the node, and nothing is read twice. -/

section

variable {node held : Node} {key : String} (found : node.get? key = some held)

include found

theorem get?_sublist : held.nodes.Sublist node.inside :=
  part_sublist (part_of_get? found)

theorem entries_sublist {entries : List (String × Node)}
    (listed : held.entries? = some entries) :
    ((entries.map Prod.snd).flatMap nodes).Sublist node.inside := by
  cases held with
  | scalar | sequence => cases listed
  | mapping location _ =>
      cases listed
      rw [List.flatMap_map]
      exact (inside_sublist _).trans (get?_sublist found)

theorem members_sublist : (held.members.flatMap nodes).Sublist node.inside := by
  cases held with
  | scalar | mapping => exact List.nil_sublist _
  | sequence location items =>
      refine List.Sublist.trans ?_ (get?_sublist found)
      refine List.Sublist.trans ?_ (inside_sublist _)
      have listed : (sequence location items).parts.map Prod.snd = items := by
        simp [parts, List.mapIdx_eq_zipIdx_map, Function.comp_def]
      have whole : items.flatMap nodes = (sequence location items).inside := by
        conv_lhs => rw [← listed, List.flatMap_map]
        rfl
      rw [← whole]
      exact List.Sublist.refl _

end

theorem toList_sublist (node : Node) (key : String) :
    ((node.get? key).toList.flatMap nodes).Sublist node.inside := by
  cases found : node.get? key with
  | none => exact List.nil_sublist _
  | some held =>
      rw [Option.toList_some, List.flatMap_singleton]
      exact get?_sublist found

theorem additionalParts_sublist (node : Node) :
    (node.additionalParts.flatMap nodes).Sublist node.inside := by
  rw [additionalParts]
  split
  · next found =>
    rw [List.flatMap_singleton]
    exact get?_sublist found
  · exact List.nil_sublist _

theorem objectParts_sublist (node : Node) :
    (node.objectParts.flatMap nodes).Sublist node.inside := by
  rw [objectParts]
  split
  · next found =>
    obtain ⟨properties, held, listed⟩ := Option.bind_eq_some_iff.mp found
    exact entries_sublist held listed
  · exact node.additionalParts_sublist

theorem shapeParts_sublist (node : Node) (types : Keyword.TypeWords) :
    ((node.shapeParts types).flatMap nodes).Sublist node.inside := by
  rw [shapeParts]
  split
  · split
    · exact node.objectParts_sublist
    · exact node.toList_sublist "items"
  · exact node.objectParts_sublist
  · exact node.toList_sublist "items"
  · exact List.nil_sublist _

theorem subschemas_sublist (node : Node) :
    (node.subschemas.flatMap nodes).Sublist node.inside := by
  rw [subschemas]
  split
  · exact List.nil_sublist _
  · split
    · next found =>
      exact (List.filter_sublist.flatMap nodes).trans (members_sublist found)
    · next found =>
      exact (List.filter_sublist.flatMap nodes).trans (members_sublist found)
    · next found => exact members_sublist found
    · split
      · exact List.nil_sublist _
      · split
        · exact node.shapeParts_sublist _
        · exact List.nil_sublist _

theorem schemaNodes_sublist (node : Node) : node.schemaNodes.Sublist node.nodes := by
  rw [schemaNodes_eq, nodes_eq]
  refine List.Sublist.append_right ?_ [node]
  refine List.Sublist.trans ?_ node.subschemas_sublist
  apply List.Sublist.flatMap_right
  intro part member
  exact part.schemaNodes_sublist
termination_by sizeOf node
decreasing_by exact sizeOf_subschemas member

end Node

namespace Schema

theorem flatMap_sublist {α β γ : Type} {held : α → β → Prop} {items : List α}
    {others : List β} {left : β → List γ} {right : α → List γ}
    (each : List.Forall₂ held items others)
    (within : ∀ item ∈ items, ∀ other, held item other → (left other).Sublist (right item)) :
    (others.flatMap left).Sublist (items.flatMap right) := by
  induction each with
  | nil => exact List.Sublist.refl []
  | cons first _ induction =>
      obtain ⟨here, later⟩ := List.forall_mem_cons.mp within
      exact (here _ first).append (induction later)

theorem places_sublist {node : Node} {schema : Schema} (reads : ofNode node = .ok schema) :
    schema.places.Sublist (node.schemaNodes.map (·.location)) := by
  rw [Node.schemaNodes_eq, List.map_append, List.map_flatMap]
  rcases referring_or_madeFrom reads with
    ⟨_, _, info, target, _, _, rfl, stands⟩ | ⟨_, inner, each, composes⟩
  · have own : (reference info target).places = [node.location] := congrArg ([·]) stands
    rw [own]
    exact List.sublist_append_right _ _
  · apply composes.places.trans
    refine List.Sublist.append_right ?_ [node.location]
    apply flatMap_sublist each
    intro part member held read
    exact places_sublist read
termination_by sizeOf node
decreasing_by exact Node.sizeOf_subschemas member

end Schema

end Schemata
