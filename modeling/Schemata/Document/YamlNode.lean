import Schemata.Document.LoadError
import Schemata.Document.Node
import Schemata.Yaml.Merging

namespace Schemata.Node

/-! Documents as YAML values. -/

mutual
/-- Places a YAML value at a location. Keys become their texts, where a repeated
text keeps its place and takes the last value. Tags are dropped. -/
def place (location : Location) : Yaml.Value → Except LoadError Node
  | .null => .ok (scalar location .null)
  | .bool value => .ok (scalar location (.bool value))
  | .number (.finite value) => .ok (scalar location (.number value))
  | .number _ => .error (.notFinite location)
  | .string value => .ok (scalar location (.string value))
  | .sequence items => do
      return sequence location (← placeItems location 0 items)
  | .mapping entries => do
      return mapping location (Entries.ofList (← placeEntries location entries))
  | .tagged _ value => place location value

private def placeItems (location : Location) (index : Nat) :
    List Yaml.Value → Except LoadError (List Node)
  | [] => .ok []
  | item :: rest => do
      let item ← place (location.item index) item
      return item :: (← placeItems location (index + 1) rest)

private def placeEntries (location : Location) :
    List (Yaml.Value × Yaml.Value) → Except LoadError (List (String × Node))
  | [] => .ok []
  | (key, value) :: rest =>
      match key.keyText? with
      | some key => do
          let value ← place (location.child key) value
          return (key, value) :: (← placeEntries location rest)
      | none => .error (.compositeKey location)
end

private theorem placeItems_map {α : Type} {location : Location} {start : Nat}
    {items : List α} {value : α → Yaml.Value} {made : Nat → α → Node}
    (each : ∀ index, ∀ item ∈ items,
      place (location.item index) (value item) = .ok (made index item)) :
    placeItems location start (items.map value) =
      .ok (items.mapIdx fun index => made (start + index)) := by
  induction items generalizing start with
  | nil => rfl
  | cons item rest induction =>
      have later : placeItems location (start + 1) (rest.map value) =
          .ok (rest.mapIdx fun index => made (start + 1 + index)) :=
        induction fun index other member =>
          each index other (List.mem_cons_of_mem _ member)
      rw [List.map_cons, placeItems, each start item List.mem_cons_self, later,
        List.mapIdx_cons]
      simp only [Nat.add_zero, Nat.add_comm, Nat.add_left_comm]
      rfl

theorem place_sequence {α : Type} {location : Location} {items : List α}
    {value : α → Yaml.Value} (made : Nat → α → Node)
    (each : ∀ index, ∀ item ∈ items,
      place (location.item index) (value item) = .ok (made index item)) :
    place location (.sequence (items.map value)) =
      .ok (sequence location (items.mapIdx made)) := by
  rw [place, placeItems_map each]
  simp only [Nat.zero_add]
  rfl

theorem place_mapping {α : Type} {location : Location} {members : List (String × α)}
    {value : α → Yaml.Value} (made : String → α → Node)
    (each : ∀ member ∈ members,
      place (location.child member.1) (value member.2) = .ok (made member.1 member.2)) :
    place location (.mapping (members.map fun member => (.string member.1, value member.2))) =
      .ok (mapping location (Entries.ofList (members.map fun member =>
        (member.1, made member.1 member.2)))) := by
  have placed : placeEntries location
      (members.map fun member => (.string member.1, value member.2)) =
        .ok (members.map fun member => (member.1, made member.1 member.2)) := by
    induction members with
    | nil => rfl
    | cons member rest induction =>
        have later := induction fun other among =>
          each other (List.mem_cons_of_mem _ among)
        rw [List.map_cons, placeEntries]
        simp only [Yaml.Value.keyText?, each member List.mem_cons_self, later]
        rfl
  rw [place, placed]
  rfl

private theorem of_placeItems {location : Location} {start : Nat}
    {items : List Yaml.Value} {nodes : List Node}
    (placed : placeItems location start items = .ok nodes) :
    ∀ index node, nodes[index]? = some node →
      ∃ value, place (location.item (start + index)) value = .ok node := by
  induction items generalizing start nodes with
  | nil =>
      cases placed
      nofun
  | cons item rest induction =>
      rw [placeItems] at placed
      cases here : place (location.item start) item with
      | error => rw [here] at placed; cases placed
      | ok first =>
          cases later : placeItems location (start + 1) rest with
          | error => rw [here, later] at placed; cases placed
          | ok others =>
              rw [here, later] at placed
              cases placed
              rintro (_ | index) node found
              · cases found
                exact ⟨item, here⟩
              · have located := induction later index node found
                rwa [Nat.add_right_comm] at located

private theorem of_mem_placeEntries {location : Location}
    {entries : List (Yaml.Value × Yaml.Value)} {nodes : List (String × Node)}
    (placed : placeEntries location entries = .ok nodes) :
    ∀ entry ∈ nodes, ∃ value, place (location.child entry.1) value = .ok entry.2 := by
  induction entries generalizing nodes with
  | nil =>
      cases placed
      nofun
  | cons entry rest induction =>
      rw [placeEntries] at placed
      cases key : entry.1.keyText? with
      | none => rw [key] at placed; cases placed
      | some text =>
          rw [key] at placed
          cases here : place (location.child text) entry.2 with
          | error => simp only [here] at placed; cases placed
          | ok first =>
              cases later : placeEntries location rest with
              | error => simp only [here, later] at placed; cases placed
              | ok others =>
                  simp only [here, later] at placed
                  cases placed
                  exact List.forall_mem_cons.mpr ⟨⟨_, here⟩, induction later⟩

theorem location_of_place {location : Location} {node : Node} :
    {value : Yaml.Value} → place location value = .ok node → node.location = location
  | .sequence items, placed => by
      rw [place] at placed
      cases each : placeItems location 0 items <;> rw [each] at placed <;> cases placed
      rfl
  | .mapping entries, placed => by
      rw [place] at placed
      cases each : placeEntries location entries <;> rw [each] at placed <;> cases placed
      rfl
  | .tagged _ value, placed =>
      location_of_place (show place location value = .ok _ from placed)
  | .null, placed | .bool _, placed | .string _, placed => by cases placed; rfl
  | .number value, placed => by cases value <;> cases placed; rfl

theorem items_of_place {location at_ : Location} {items : List Node} :
    {value : Yaml.Value} → place location value = .ok (sequence at_ items) →
    ∀ index item, items[index]? = some item →
      ∃ value, place (location.item index) value = .ok item
  | .sequence values, placed => by
      rw [place] at placed
      cases each : placeItems location 0 values with
      | error => rw [each] at placed; cases placed
      | ok nodes =>
          rw [each] at placed
          cases placed
          intro index item found
          have located := of_placeItems each index item found
          rwa [Nat.zero_add] at located
  | .mapping entries, placed => by
      rw [place] at placed
      cases each : placeEntries location entries <;> rw [each] at placed <;> cases placed
  | .tagged _ value, placed =>
      items_of_place (show place location value = .ok _ from placed)
  | .null, placed | .bool _, placed | .string _, placed => by cases placed
  | .number value, placed => by cases value <;> cases placed

theorem entries_of_place {location at_ : Location} {entries : List (String × Node)} :
    {value : Yaml.Value} → place location value = .ok (mapping at_ entries) →
    (entries.map Prod.fst).Nodup ∧
      ∀ entry ∈ entries, ∃ value, place (location.child entry.1) value = .ok entry.2
  | .mapping pairs, placed => by
      rw [place] at placed
      cases each : placeEntries location pairs with
      | error => rw [each] at placed; cases placed
      | ok nodes =>
          rw [each] at placed
          cases placed
          exact ⟨Entries.nodup_names_ofList _, fun entry member =>
            of_mem_placeEntries each entry (Entries.ofList_subset _ member)⟩
  | .sequence items, placed => by
      rw [place] at placed
      cases each : placeItems location 0 items <;> rw [each] at placed <;> cases placed
  | .tagged _ value, placed =>
      entries_of_place (show place location value = .ok _ from placed)
  | .null, placed | .bool _, placed | .string _, placed => by cases placed
  | .number value, placed => by cases value <;> cases placed

def ofYaml (location : Location) (value : Yaml.Value) : Except LoadError Node :=
  match value.merged? with
  | some value => place location value
  | none => .error .notYaml

theorem place_of_ofYaml {location : Location} {value : Yaml.Value} {node : Node}
    (reads : ofYaml location value = .ok node) :
    ∃ merged, place location merged = .ok node := by
  rw [ofYaml] at reads
  split at reads
  · exact ⟨_, reads⟩
  · cases reads

end Schemata.Node
