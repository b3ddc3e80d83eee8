import Schemata.Document.Location
import Schemata.Entries
import Schemata.Json.Basic

namespace Schemata

/-! The tree of a loaded document. Every node knows where it stands. -/

inductive Scalar where
  | null
  | bool (value : Bool)
  | number (value : Number)
  | string (value : String)
  deriving DecidableEq, Inhabited

inductive Node where
  | scalar (location : Location) (value : Scalar)
  | sequence (location : Location) (items : List Node)
  | mapping (location : Location) (entries : List (String × Node))
  deriving Inhabited

mutual
def Node.decEq : (node other : Node) → Decidable (node = other)
  | .scalar .., .scalar .. => decidable_of_iff _ (Node.scalar.injEq ..).symm.to_iff
  | .sequence _ items, .sequence _ others =>
      have := decEqItems items others
      decidable_of_iff _ (Node.sequence.injEq ..).symm.to_iff
  | .mapping _ entries, .mapping _ others =>
      have := decEqEntries entries others
      decidable_of_iff _ (Node.mapping.injEq ..).symm.to_iff
  | .scalar .., .sequence .. | .scalar .., .mapping .. | .sequence .., .scalar ..
  | .sequence .., .mapping .. | .mapping .., .scalar .. | .mapping .., .sequence .. =>
      isFalse nofun

def Node.decEqItems : (items others : List Node) → Decidable (items = others)
  | [], [] => isTrue rfl
  | item :: items, other :: others =>
      have := decEq item other
      have := decEqItems items others
      decidable_of_iff _ (List.cons.injEq ..).symm.to_iff
  | [], _ :: _ | _ :: _, [] => isFalse nofun

def Node.decEqEntries :
    (entries others : List (String × Node)) → Decidable (entries = others)
  | [], [] => isTrue rfl
  | (key, held) :: entries, (name, other) :: others =>
      have := decEq held other
      have := decEqEntries entries others
      decidable_of_iff ((key = name ∧ held = other) ∧ entries = others) (by simp)
  | [], _ :: _ | _ :: _, [] => isFalse nofun
end

instance : DecidableEq Node :=
  Node.decEq

def Scalar.text : Scalar → String
  | .null => "null"
  | .bool true => "true"
  | .bool false => "false"
  | .number value => String.ofList value.text
  | .string value => value

def Scalar.toJson : Scalar → Json
  | .null => .null
  | .bool value => .bool value
  | .number value => .number value
  | .string value => .string value

namespace Node

def location : Node → Location
  | scalar location _ | sequence location _ | mapping location _ => location

def scalar? : Node → Option Scalar
  | scalar _ value => some value
  | _ => none

def items? : Node → Option (List Node)
  | sequence _ items => some items
  | _ => none

def entries? : Node → Option (List (String × Node))
  | mapping _ entries => some entries
  | _ => none

def string? : Node → Option String
  | scalar _ (.string value) => some value
  | _ => none

def bool? : Node → Option Bool
  | scalar _ (.bool value) => some value
  | _ => none

def get? (node : Node) (key : String) : Option Node :=
  node.entries?.bind (·.lookup key)

/-- A scalar is shown by its text, a collection by its kind. -/
def summary : Node → String
  | scalar _ value => value.text
  | sequence .. => "<sequence>"
  | mapping .. => "<mapping>"

mutual
def toJson : Node → Json
  | scalar _ value => value.toJson
  | sequence _ items => .array (itemsToJson items)
  | mapping _ entries => .object (entriesToJson entries)

private def itemsToJson : List Node → List Json
  | [] => []
  | item :: rest => item.toJson :: itemsToJson rest

private def entriesToJson : List (String × Node) → List (String × Json)
  | [] => []
  | (key, value) :: rest => (key, value.toJson) :: entriesToJson rest
end

mutual
def ofJson (location : Location) : Json → Node
  | .null => scalar location .null
  | .bool value => scalar location (.bool value)
  | .number value => scalar location (.number value)
  | .string value => scalar location (.string value)
  | .array items => sequence location (itemsOfJson location 0 items)
  | .object members =>
      mapping location (Entries.ofList (membersOfJson location members))

private def itemsOfJson (location : Location) (index : Nat) :
    List Json → List Node
  | [] => []
  | item :: rest =>
      ofJson (location.item index) item ::
        itemsOfJson location (index + 1) rest

private def membersOfJson (location : Location) :
    List (String × Json) → List (String × Node)
  | [] => []
  | (key, value) :: rest =>
      (key, ofJson (location.child key) value) :: membersOfJson location rest
end

theorem toJson_sequence (location : Location) (items : List Node) :
    (sequence location items).toJson = .array (items.map toJson) := by
  rw [toJson]
  congr 1
  induction items with
  | nil => rfl
  | cons item rest induction => rw [itemsToJson, induction, List.map_cons]

theorem toJson_mapping (location : Location) (entries : List (String × Node)) :
    (mapping location entries).toJson =
      .object (entries.map fun entry => (entry.1, entry.2.toJson)) := by
  rw [toJson]
  congr 1
  induction entries with
  | nil => rfl
  | cons entry rest induction => rw [entriesToJson, induction, List.map_cons]

theorem ofJson_array (location : Location) (items : List Json) :
    ofJson location (.array items) =
      sequence location (items.mapIdx fun index => ofJson (location.item index)) := by
  suffices general : ∀ start, itemsOfJson location start items =
      items.mapIdx fun index => ofJson (location.item (start + index)) by
    rw [ofJson, general]
    simp only [Nat.zero_add]
  induction items with
  | nil => exact fun _ => rfl
  | cons item rest induction =>
      intro start
      rw [itemsOfJson, induction, List.mapIdx_cons]
      simp only [Nat.add_zero, Nat.add_comm, Nat.add_left_comm]

theorem ofJson_object (location : Location) (members : List (String × Json)) :
    ofJson location (.object members) =
      mapping location (Entries.ofList (members.map fun member =>
        (member.1, ofJson (location.child member.1) member.2))) := by
  rw [ofJson]
  congr 2
  induction members with
  | nil => rfl
  | cons member rest induction => rw [membersOfJson, induction, List.map_cons]

theorem location_ofJson (location : Location) (value : Json) :
    (ofJson location value).location = location := by
  cases value <;> rfl

private theorem of_itemsOfJson {location : Location} {start index : Nat}
    {items : List Json} {node : Node}
    (found : (itemsOfJson location start items)[index]? = some node) :
    ∃ value, node = ofJson (location.item (start + index)) value := by
  induction items generalizing start index with
  | nil => cases found
  | cons item rest induction =>
      cases index with
      | zero =>
          cases found
          exact ⟨item, rfl⟩
      | succ index =>
          have later : (itemsOfJson location (start + 1) rest)[index]? = some node := found
          obtain ⟨value, same⟩ := induction later
          rw [Nat.add_right_comm] at same
          exact ⟨value, same⟩

private theorem of_mem_membersOfJson {location : Location}
    {members : List (String × Json)} {entry : String × Node}
    (member : entry ∈ membersOfJson location members) :
    ∃ value, entry.2 = ofJson (location.child entry.1) value := by
  induction members with
  | nil => cases member
  | cons first rest induction =>
      rcases List.mem_cons.mp member with rfl | later
      · exact ⟨_, rfl⟩
      · exact induction later

theorem items_of_ofJson {location at_ : Location} {value : Json} {items : List Node}
    (shape : ofJson location value = sequence at_ items) :
    ∀ index item, items[index]? = some item →
      ∃ value, item = ofJson (location.item index) value := by
  cases value with
  | array =>
      injection shape with _ same
      subst same
      intro index item found
      have located := of_itemsOfJson found
      rwa [Nat.zero_add] at located
  | null | bool | number | string | object => cases shape

theorem entries_of_ofJson {location at_ : Location} {value : Json}
    {entries : List (String × Node)}
    (shape : ofJson location value = mapping at_ entries) :
    (entries.map Prod.fst).Nodup ∧
      ∀ entry ∈ entries, ∃ value, entry.2 = ofJson (location.child entry.1) value := by
  cases value with
  | object members =>
      injection shape with _ same
      subst same
      exact ⟨Entries.nodup_names_ofList _,
        fun _ member => of_mem_membersOfJson (Entries.ofList_subset _ member)⟩
  | null | bool | number | string | array => cases shape

end Node

end Schemata
