import Schemata.Proofs.Document.Loaded

namespace Schemata

/-! JSON and YAML values that mean the same are the same documents, and a document is no
more and no less than its JSON value. -/

namespace Json

theorem sizeOf_item {items : List Json} {item : Json} (member : item ∈ items) :
    sizeOf item < sizeOf (array items) := by
  have smaller := List.sizeOf_lt_of_mem member
  simp only [array.sizeOf_spec]
  omega

theorem sizeOf_member {members : List (String × Json)} {entry : String × Json}
    (among : entry ∈ members) : sizeOf entry.2 < sizeOf (object members) := by
  have smaller := List.sizeOf_lt_of_mem among
  obtain ⟨name, value⟩ := entry
  simp only [Prod.mk.sizeOf_spec, object.sizeOf_spec] at smaller ⊢
  omega

@[elab_as_elim]
theorem inductionOn {motive : Json → Prop} (value : Json)
    (null : motive .null) (bool : ∀ value, motive (.bool value))
    (number : ∀ value, motive (.number value)) (string : ∀ value, motive (.string value))
    (array : ∀ items, (∀ item ∈ items, motive item) → motive (.array items))
    (object : ∀ members, (∀ member ∈ members, motive member.2) →
      motive (.object members)) : motive value :=
  match value with
  | .null => null
  | .bool value => bool value
  | .number value => number value
  | .string value => string value
  | .array items =>
      array items fun item _ => inductionOn item null bool number string array object
  | .object members =>
      object members fun member _ =>
        inductionOn member.2 null bool number string array object
decreasing_by
  · exact sizeOf_item ‹_›
  · exact sizeOf_member ‹_›

/-- No object has the key, at any depth. -/
inductive Lacks (key : String) : Json → Prop
  | null : Lacks key .null
  | bool (value : Bool) : Lacks key (.bool value)
  | number (value : Number) : Lacks key (.number value)
  | string (value : String) : Lacks key (.string value)
  | array {items : List Json} (each : ∀ item ∈ items, Lacks key item) :
      Lacks key (.array items)
  | object {members : List (String × Json)} (absent : key ∉ members.map Prod.fst)
      (each : ∀ member ∈ members, Lacks key member.2) : Lacks key (.object members)

theorem Lacks.unmerged {value : Json} (lacks : value.Lacks "<<") :
    (Yaml.Value.ofJson value).Unmerged := by
  induction lacks with
  | null => exact .null
  | bool value => exact .bool value
  | number value => exact .number (.finite value)
  | string value => exact .string value
  | array _ induction =>
      rw [Yaml.Value.ofJson_array]
      exact .sequence (List.forall_mem_map.mpr induction)
  | object absent _ induction =>
      rw [Yaml.Value.ofJson_object]
      refine .mapping ?_ (List.forall_mem_map.mpr induction)
      simp only [List.forall_mem_map, Yaml.Value.sameAs_string, beq_eq_false_iff_ne]
      intro member among same
      exact absent (same ▸ List.mem_map_of_mem among)

end Json

namespace Node

theorem place_ofJson (location : Location) (value : Json) :
    place location (.ofJson value) = .ok (ofJson location value) := by
  induction value using Json.inductionOn generalizing location with
  | null | bool | number | string => rfl
  | array items induction =>
      rw [Yaml.Value.ofJson_array, ofJson_array]
      apply place_sequence fun index => ofJson (location.item index)
      intro index item member
      exact induction item member (location.item index)
  | object members induction =>
      rw [Yaml.Value.ofJson_object, ofJson_object]
      apply place_mapping fun key => ofJson (location.child key)
      intro member among
      exact induction member among (location.child member.1)

theorem toJson_ofJson (location : Location) {value : Json}
    (distinct : value.DistinctMembers) : (ofJson location value).toJson = value := by
  induction value using Json.inductionOn generalizing location with
  | null | bool | number | string => rfl
  | array items induction =>
      rw [Json.distinctMembers_array] at distinct
      rw [ofJson_array, toJson_sequence]
      congr 1
      apply List.ext_getElem
      · simp
      · intro index _ below
        have member := List.getElem_mem below
        simpa using induction _ member _ (distinct _ member)
  | object members induction =>
      obtain ⟨names, each⟩ := Json.distinctMembers_object.mp distinct
      have kept : Entries.names (members.map fun member =>
          (member.1, ofJson (location.child member.1) member.2)) =
            members.map Prod.fst := by
        simp [Entries.names]
      rw [ofJson_object, Entries.ofList_of_nodup (kept ▸ names), toJson_mapping,
        List.map_map]
      congr 1
      refine (List.map_congr_left ?_).trans (List.map_id _)
      intro member among
      exact congrArg (Prod.mk member.1) (induction member among _ (each member among))

/-- A node whose parts stand where their locations say is what its JSON value makes at its
location. -/
theorem Located.ofJson_toJson {node : Node} (located : node.Located) :
    ofJson node.location node.toJson = node := by
  induction located with
  | @intro node distinct placed _ induction =>
      cases node with
      | scalar location value => cases value <;> rfl
      | sequence location items =>
          rw [toJson_sequence, Node.location, ofJson_array]
          congr 1
          apply List.ext_getElem
          · simp
          · intro index _ below
            have part : (String.ofList (naturalText index), items[index]) ∈
                (sequence location items).parts :=
              List.mem_mapIdx.mpr ⟨index, below, rfl⟩
            have same := induction _ part
            rw [placed _ part] at same
            rw [List.getElem_mapIdx, List.getElem_map]
            exact same
      | mapping location entries =>
          have names : Entries.names (entries.map fun entry =>
              (entry.1, ofJson (location.child entry.1) entry.2.toJson)) =
                entries.map Prod.fst := by
            simp [Entries.names]
          rw [toJson_mapping, Node.location, ofJson_object, List.map_map]
          simp only [Function.comp_def]
          rw [Entries.ofList_of_nodup (names ▸ distinct)]
          congr 1
          refine (List.map_congr_left ?_).trans (List.map_id _)
          intro entry member
          have same := induction entry member
          rw [placed entry member] at same
          exact congrArg (Prod.mk entry.1) same

/-- Whatever a loader makes of a value. -/
def Made (location : Location) (node : Node) : Prop :=
  (∃ value, ofJson location value = node) ∨ ∃ value, ofYaml location value = .ok node

theorem Made.located {location : Location} {node : Node} (made : Made location node) :
    node.location = location ∧ node.Located := by
  obtain ⟨value, rfl⟩ | ⟨value, reads⟩ := made
  · exact ⟨location_ofJson location value, located_ofJson location value⟩
  · obtain ⟨merged, placed⟩ := place_of_ofYaml reads
    exact ⟨location_of_place placed, located_of_place placed⟩

/-- A JSON value without merge keys makes the same node as the YAML value with the same
structure, and the node gives the value back. Every node that is made at a location, of
JSON or of YAML, is made of its own JSON value there. -/
theorem loaders_agree (location : Location) :
    (∀ value : Json, value.Lacks "<<" →
      ofYaml location (.ofJson value) = .ok (ofJson location value)) ∧
    (∀ value : Json, value.DistinctMembers →
      (ofJson location value).toJson = value) ∧
    ∀ node, Made location node → ofJson location node.toJson = node := by
  refine ⟨?_, ?_, ?_⟩
  · intro value lacks
    rw [ofYaml, Yaml.Value.merged?_of_unmerged lacks.unmerged]
    exact place_ofJson location value
  · intro value distinct
    exact toJson_ofJson location distinct
  · intro node made
    obtain ⟨stands, located⟩ := made.located
    rw [← stands]
    exact located.ofJson_toJson

/-- A key that is spelled like a number, in an object of a list. -/
def tally : Json :=
  .object [("counts", .array [.object [("1", .number (.integer 1))], .null])]

/-- The last entry takes the place of the merge key, and two keys become one text. -/
def mergedTally : Yaml.Value :=
  .mapping [(.string "<<", .mapping [(.string "x", .bool true)]),
    (.number (.finite (.integer 1)), .tagged "t" (.string "first")),
    (.string "1", .tagged "t" (.string "last")),
    (.bool true, .null)]

theorem loaders_agree_tally :
    (tally.Lacks "<<" ∧ ofYaml .root (.ofJson tally) = .ok (ofJson .root tally)) ∧
    (tally.DistinctMembers ∧ (ofJson .root tally).toJson = tally) ∧
    ∃ node, ofYaml .root mergedTally = .ok node ∧
      node.toJson = .object [("true", .null), ("1", .string "last"), ("x", .bool true)] ∧
      ofJson .root node.toJson = node := by
  obtain ⟨agree, kept, again⟩ := loaders_agree .root
  have lacks : tally.Lacks "<<" := by
    refine .object (by decide) (List.forall_mem_singleton.mpr (.array ?_))
    refine List.forall_mem_cons.mpr ⟨?_, List.forall_mem_singleton.mpr .null⟩
    exact .object (by decide) (List.forall_mem_singleton.mpr (.number _))
  have distinct : tally.DistinctMembers := by
    simp only [tally, Json.distinctMembers_object, Json.distinctMembers_array,
      List.forall_mem_cons]
    simp [Json.DistinctMembers]
  refine ⟨⟨lacks, agree tally lacks⟩, ⟨distinct, kept tally distinct⟩, ?_⟩
  have reads : ofYaml .root mergedTally = .ok (.mapping ⟨[]⟩
      [("true", .scalar ⟨["true"]⟩ .null), ("1", .scalar ⟨["1"]⟩ (.string "last")),
        ("x", .scalar ⟨["x"]⟩ (.bool true))]) := by
    decide +kernel
  exact ⟨_, reads, rfl, again _ (.inr ⟨_, reads⟩)⟩

end Node

end Schemata
