import Mathlib.Data.List.Basic
import Schemata.Document.Loading
import Schemata.Proofs.Document.Location

namespace Schemata

/-! In a loaded document no mapping has two values under one key, and the location of a
node designates that node. -/

namespace Node

inductive KeysDistinct : Node → Prop
  | scalar (location : Location) (value : Scalar) : KeysDistinct (.scalar location value)
  | sequence (location : Location) {items : List Node}
      (each : ∀ item ∈ items, KeysDistinct item) :
      KeysDistinct (.sequence location items)
  | mapping (location : Location) {entries : List (String × Node)}
      (distinct : (entries.map Prod.fst).Nodup)
      (each : ∀ entry ∈ entries, KeysDistinct entry.2) :
      KeysDistinct (.mapping location entries)

theorem Located.keysDistinct {node : Node} (located : node.Located) :
    node.KeysDistinct := by
  induction located with
  | @intro node distinct _ _ induction =>
      cases node with
      | scalar location value => exact .scalar location value
      | sequence location items =>
          refine .sequence location ?_
          intro item member
          obtain ⟨segment, part⟩ := part_of_item location member
          exact induction _ part
      | mapping location entries => exact .mapping location distinct induction

theorem KeysDistinct.get? {node held : Node} {key : String} (distinct : node.KeysDistinct)
    (found : node.get? key = some held) : held.KeysDistinct := by
  cases distinct with
  | scalar | sequence => cases found
  | mapping _ _ each => exact each (key, held) (mem_of_get? found)

theorem KeysDistinct.below? {node held : Node} {keys : List String}
    (distinct : node.KeysDistinct) (found : node.below? keys = some held) :
    held.KeysDistinct := by
  induction keys generalizing node with
  | nil =>
      cases found
      exact distinct
  | cons key rest induction =>
      obtain ⟨middle, here, later⟩ := Option.bind_eq_some_iff.mp found
      exact induction (distinct.get? here) later

theorem located_ofJson (location : Location) (value : Json) :
    (ofJson location value).Located := by
  refine located_of_made (fun location node => ∃ value, node = ofJson location value)
    ?_ ?_ ⟨value, rfl⟩
  · rintro location _ ⟨value, rfl⟩
    exact location_ofJson location value
  · rintro location node ⟨value, shape⟩
    cases node with
    | scalar => exact ⟨List.nodup_nil, nofun⟩
    | sequence at_ items =>
        refine ⟨nodup_indices at_ items, ?_⟩
        intro part member
        obtain ⟨index, bounded, rfl⟩ := List.mem_mapIdx.mp member
        exact items_of_ofJson shape.symm index _ (List.getElem?_eq_getElem bounded)
    | mapping => exact entries_of_ofJson shape.symm

theorem located_of_place {location : Location} {value : Yaml.Value} {node : Node}
    (placed : place location value = .ok node) : node.Located := by
  refine located_of_made (fun location node => ∃ value, place location value = .ok node)
    ?_ ?_ ⟨value, placed⟩
  · rintro location node ⟨value, placed⟩
    exact location_of_place placed
  · rintro location node ⟨value, placed⟩
    cases node with
    | scalar => exact ⟨List.nodup_nil, nofun⟩
    | sequence at_ items =>
        refine ⟨nodup_indices at_ items, ?_⟩
        intro part member
        obtain ⟨index, bounded, rfl⟩ := List.mem_mapIdx.mp member
        exact items_of_place placed index _ (List.getElem?_eq_getElem bounded)
    | mapping => exact entries_of_place placed

end Node

namespace Document

def Loaded (document : Node) : Prop :=
  ∃ text, loadJson text = .ok document ∨ loadYaml text = .ok document

namespace Loaded

variable {document : Node} (loaded : Loaded document)

include loaded

theorem location_eq : document.location = .root := by
  obtain ⟨text, json | yaml⟩ := loaded
  · obtain ⟨value, rfl⟩ := ofJson_of_loadJson json
    exact Node.location_ofJson .root value
  · obtain ⟨value, placed⟩ := place_of_loadYaml yaml
    exact Node.location_of_place placed

theorem located : document.Located := by
  obtain ⟨text, json | yaml⟩ := loaded
  · obtain ⟨value, rfl⟩ := ofJson_of_loadJson json
    exact Node.located_ofJson .root value
  · obtain ⟨value, placed⟩ := place_of_loadYaml yaml
    exact Node.located_of_place placed

theorem keysDistinct : document.KeysDistinct :=
  loaded.located.keysDistinct

theorem designated {node : Node} (member : node ∈ document.nodes) :
    document.designated? node.location.text = some node := by
  obtain ⟨segments, ends, found⟩ := loaded.located.at? member
  rw [loaded.location_eq] at ends
  rw [Node.designated?, Location.text, String.toList_ofList, Pointer.segments?_pointer,
    ends]
  exact found

/-- The nodes of the document are those that their own locations designate, read as
pointers, and no location is that of two nodes. -/
theorem locations_designate :
    (∀ node, node ∈ document.nodes ↔
      document.designated? node.location.text = some node) ∧
    (document.nodes.map (·.location.text)).Nodup := by
  constructor
  · intro node
    refine ⟨loaded.designated, ?_⟩
    intro found
    obtain ⟨segments, _, found⟩ := Option.bind_eq_some_iff.mp found
    exact Node.mem_nodes_of_at? found
  · have distinct := loaded.located.nodup_locations.map Location.text_injective
    rwa [List.map_map] at distinct

end Loaded

/-- A key with the separator of pointers, and one that is written twice. -/
def sheet : Node :=
  .mapping ⟨[]⟩ [("1", .scalar ⟨["1"]⟩ (.string "last")),
    ("a/b", .sequence ⟨["a/b"]⟩ [.scalar ⟨["a/b", "0"]⟩ .null])]

theorem loaded_sheet : Loaded sheet := by
  refine ⟨"\x7b\"1\":\"first\",\"a/b\":[null],\"1\":\"last\"\x7d", .inl ?_⟩
  decide +kernel

theorem locations_designate_sheet : Loaded sheet ∧
    sheet.nodes.map (·.location.text) = ["#/1", "#/a~1b/0", "#/a~1b", "#"] ∧
    (∀ node, node ∈ sheet.nodes ↔
      sheet.designated? node.location.text = some node) ∧
    (sheet.nodes.map (·.location.text)).Nodup := by
  refine ⟨loaded_sheet, ?_, loaded_sheet.locations_designate⟩
  simp only [sheet, Node.nodes_scalar, Node.nodes_sequence, Node.nodes_mapping, List.flatMap_cons,
    List.flatMap_nil]
  decide +kernel

end Document

end Schemata
