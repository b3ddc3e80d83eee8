import Schemata.Number.Notation

namespace Schemata

/-! Values of the JSON data model. The members of an object keep their order. -/

inductive Json where
  | null
  | bool (value : Bool)
  | number (value : Number)
  | string (value : String)
  | array (items : List Json)
  | object (members : List (String × Json))
  deriving Inhabited

mutual
/-- Every object names each of its members once. -/
def Json.DistinctMembers : Json → Prop
  | .array items => itemsDistinct items
  | .object members =>
      (members.map Prod.fst).Nodup ∧ membersDistinct members
  | _ => True

private def itemsDistinct : List Json → Prop
  | [] => True
  | item :: rest => item.DistinctMembers ∧ itemsDistinct rest

private def membersDistinct : List (String × Json) → Prop
  | [] => True
  | (_, value) :: rest => value.DistinctMembers ∧ membersDistinct rest
end

private theorem itemsDistinct_iff {items : List Json} :
    itemsDistinct items ↔ ∀ item ∈ items, item.DistinctMembers := by
  induction items with
  | nil => exact ⟨nofun, fun _ => trivial⟩
  | cons item rest induction => rw [itemsDistinct, induction, List.forall_mem_cons]

private theorem membersDistinct_iff {members : List (String × Json)} :
    membersDistinct members ↔ ∀ member ∈ members, member.2.DistinctMembers := by
  induction members with
  | nil => exact ⟨nofun, fun _ => trivial⟩
  | cons member rest induction => rw [membersDistinct, induction, List.forall_mem_cons]

namespace Json

theorem distinctMembers_array {items : List Json} :
    (array items).DistinctMembers ↔ ∀ item ∈ items, item.DistinctMembers := by
  rw [DistinctMembers, itemsDistinct_iff]

theorem distinctMembers_object {members : List (String × Json)} :
    (object members).DistinctMembers ↔ (members.map Prod.fst).Nodup ∧
      ∀ member ∈ members, member.2.DistinctMembers := by
  rw [DistinctMembers, membersDistinct_iff]

end Json

end Schemata
