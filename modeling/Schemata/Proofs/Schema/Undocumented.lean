import Schemata.Proofs.Document.Undocumented
import Schemata.Proofs.Outcome
import Schemata.Proofs.Schema.Plain
import Schemata.Schema.Reading

namespace Schemata

/-! A node without documentation is read as the same schema, apart from descriptions
and examples. -/

/-- One failure, or schemas that differ in descriptions and examples only. -/
def Schema.Alike :
    Except CompileError Schema → Except CompileError Schema → Prop :=
  Outcome.Agree fun schema other => schema.plain = other.plain

/-- Properties whose schemas differ in descriptions and examples only. -/
def Property.Alike (property other : Property Schema) : Prop :=
  property.name = other.name ∧ property.required = other.required ∧
    property.schema.plain = other.schema.plain

theorem Schema.plainProperties_eq {properties others : List (Property Schema)}
    (alike : List.Forall₂ Property.Alike properties others) :
    plainProperties properties = plainProperties others := by
  induction alike with
  | nil => rfl
  | cons first _ induction =>
      obtain ⟨name, required, schema⟩ := first
      rw [plainProperties, plainProperties, name, required, schema, induction]

theorem Schema.plainVariants_eq {variants others : List Schema}
    (alike : List.Forall₂ (fun variant other => variant.plain = other.plain)
      variants others) : plainVariants variants = plainVariants others := by
  induction alike with
  | nil => rfl
  | cons first _ induction => rw [plainVariants, plainVariants, first, induction]

namespace Reading

open Keyword Outcome

/-- Readings of a node and of the node without documentation. -/
structure Alike (role : Role) (reading bare : Reading) : Prop where
  node : bare.node = reading.node.undocumented true role
  schema : role.ReadsSchema → Schema.Alike reading.schema bare.schema
  entries : role = .entries →
    List.Forall₂ (fun entry other =>
      entry.1 = other.1 ∧ Schema.Alike entry.2 other.2) reading.entries bare.entries
  members : role = .members →
    List.Forall₂ (fun member other =>
      (IsNull member.1 ↔ IsNull other.1) ∧ Schema.Alike member.2 other.2)
      reading.members bare.members

namespace Source

/-- Mappings that are being read with their documentation and without. -/
structure Alike (source bare : Source) : Prop where
  location : bare.location = source.location
  get? (keyword : String) : ¬IsDocumentation keyword → Role.under keyword = .other →
    bare.node.get? keyword = source.node.get? keyword
  held (keyword : String) : ¬IsDocumentation keyword →
    (source.value? keyword = none ∧ bare.value? keyword = none) ∨
    ∃ reading other, source.value? keyword = some reading ∧
      bare.value? keyword = some other ∧ reading.Alike (.under keyword) other

namespace Alike

variable {source bare : Source} (alike : source.Alike bare)
  {info bareInfo : SchemaInfo} (same : info.plain = bareInfo.plain)

include alike

theorem nullable : Keyword.nullable bare.node = Keyword.nullable source.node := by
  rw [Keyword.nullable, alike.get? "nullable" (by decide) rfl, Keyword.nullable]

theorem types : Keyword.types bare.node = Keyword.types source.node := by
  rw [Keyword.types, alike.get? "type" (by decide) rfl, Keyword.types]

theorem required : Keyword.required bare.node = Keyword.required source.node := by
  rw [Keyword.required, alike.get? "required" (by decide) rfl, Keyword.required]

theorem primitive (word : TypeWord) :
    Keyword.primitive bare.node word = Keyword.primitive source.node word := by
  simp only [Keyword.primitive, alike.get? "format" (by decide) rfl]

theorem docs : (Keyword.docs bare.node).plain = (Keyword.docs source.node).plain := by
  simp only [Keyword.docs, Docs.plain, alike.get? "format" (by decide) rfl]

theorem isSome_value? (keyword : String) (other : ¬IsDocumentation keyword) :
    (bare.value? keyword).isSome = (source.value? keyword).isSome := by
  rcases alike.held keyword other with
    ⟨missing, gone⟩ | ⟨_, _, found, kept, _⟩
  · rw [missing, gone]
  · rw [found, kept]
    rfl

theorem array (same : info.plain = bareInfo.plain) :
    Schema.Alike (source.array info) (bare.array bareInfo) := by
  rw [Source.array, Source.array]
  rcases alike.held "items" (by decide) with
    ⟨missing, gone⟩ | ⟨items, others, found, kept, read⟩
  · simp only [missing, gone, alike.location]
    exact .error _
  · simp only [found, kept, read.node, Node.isNone_entries?_undocumented,
      Node.location_undocumented]
    split
    · exact .error _
    · refine (read.schema .schema).bind fun schema other alike => .ok ?_
      rw [Schema.plain, Schema.plain, same, alike]

theorem properties? (required : List String) :
    Agree (Option.Rel (List.Forall₂ Property.Alike))
      (source.properties? required) (bare.properties? required) := by
  rw [Source.properties?, Source.properties?]
  rcases alike.held "properties" (by decide) with
    ⟨missing, gone⟩ | ⟨properties, others, found, kept, read⟩
  · simp only [missing, gone]
    exact .ok .none
  · simp only [found, kept, read.node, Node.isNone_entries?_undocumented,
      Node.location_undocumented]
    split
    · exact .error _
    · refine Agree.bind ?_ fun properties others each => .ok (.some each)
      refine Agree.mapM ((read.entries rfl).imp fun entry other met => ?_)
      exact met.2.bind fun schema partner alike => .ok ⟨met.1, by rw [met.1], alike⟩

theorem propertyless (same : info.plain = bareInfo.plain) (declared : Bool) :
    Schema.Alike (source.propertyless info declared)
      (bare.propertyless bareInfo declared) := by
  rw [Source.propertyless, Source.propertyless]
  have fieldless : (Schema.object info []).plain = (Schema.object bareInfo []).plain := by
    rw [Schema.plain, Schema.plain, same]
  have untyped : (Schema.untypedMap info).plain = (Schema.untypedMap bareInfo).plain := by
    rw [Schema.plain, Schema.plain, same]
  rcases alike.held "additionalProperties" (by decide) with
    ⟨missing, gone⟩ | ⟨additional, others, found, kept, read⟩
  · simp only [missing, gone, alike.location]
    split
    · exact .ok fieldless
    · exact .error _
  · simp only [found, kept, read.node]
    cases additional.node with
    | sequence => exact .error _
    | scalar location value =>
        rw [Node.undocumented_scalar]
        rcases value with _ | ⟨_ | _⟩ | _ | _
        · exact .error _
        · simp only [alike.location]
          split
          · exact .ok fieldless
          · exact .error _
        · exact .ok untyped
        · exact .error _
        · exact .error _
    | mapping location entries =>
        cases entries with
        | nil =>
            rw [Role.under, Node.undocumented_additional_nil]
            exact .ok untyped
        | cons entry rest =>
            obtain ⟨first, later, shape⟩ :=
              Node.undocumented_additional_cons location entry rest
            rw [Role.under, shape]
            refine (read.schema .additional).bind fun schema partner met => .ok ?_
            rw [Schema.plain, Schema.plain, same, met]

theorem object (same : info.plain = bareInfo.plain) :
    Schema.Alike (source.object info) (bare.object bareInfo) := by
  rw [Source.object, Source.object, alike.required]
  refine Agree.bind_self _ fun required => ?_
  refine (alike.properties? required).bind fun properties others met => ?_
  cases met with
  | none => exact alike.propertyless same false
  | some each =>
      cases each with
      | nil => exact alike.propertyless same true
      | cons first rest =>
          refine .ok ?_
          rw [Schema.plain, Schema.plain, same,
            Schema.plainProperties_eq (.cons first rest)]

theorem primitiveUnion (same : info.plain = bareInfo.plain) (words : List TypeWord) :
    Schema.Alike (source.primitiveUnion info words)
      (bare.primitiveUnion bareInfo words) := by
  rw [Source.primitiveUnion, Source.primitiveUnion, alike.location]
  split
  · exact .error _
  · simp only [alike.primitive]
    refine .ok ?_
    rw [Schema.plain, Schema.plain, same]

theorem ofTypes (same : info.plain = bareInfo.plain) (types : TypeWords) :
    Schema.Alike (source.ofTypes info types) (bare.ofTypes bareInfo types) := by
  rw [Source.ofTypes, Source.ofTypes]
  split
  · simp only [alike.isSome_value? "properties" (by decide),
      alike.isSome_value? "additionalProperties" (by decide),
      alike.isSome_value? "items" (by decide), alike.location]
    split
    · exact .error _
    · split
      · exact alike.object same
      · split
        · exact alike.array same
        · exact .error _
  · exact alike.object same
  · exact alike.array same
  · refine .ok ?_
    rw [Schema.plain, Schema.plain, same, alike.primitive]
  · exact alike.primitiveUnion same _

theorem ofValues (same : info.plain = bareInfo.plain) (types : TypeWords) :
    Schema.Alike (source.ofValues info types) (bare.ofValues bareInfo types) := by
  rw [Source.ofValues, Source.ofValues]
  rcases alike.held "enum" (by decide) with
    ⟨missing, gone⟩ | ⟨values, others, found, kept, read⟩
  · rcases alike.held "const" (by decide) with
      ⟨noConst, noOther⟩ | ⟨value, other, foundConst, keptConst, readConst⟩
    · simp only [missing, gone, noConst, noOther]
      exact alike.ofTypes same types
    · have node : other.node = value.node :=
        readConst.node.trans (Node.undocumented_other true value.node)
      simp only [missing, gone, foundConst, keptConst, node]
      refine Agree.bind_self _ fun literal => .ok ?_
      rw [Schema.plain, Schema.plain, same]
  · have node : others.node = values.node :=
      read.node.trans (Node.undocumented_other true values.node)
    simp only [found, kept, node]
    refine Agree.bind_self _ fun literals => .ok ?_
    rw [Schema.plain, Schema.plain, same]

end Alike

/-! Compositions. -/

theorem wrappedBy_eq {info bareInfo : SchemaInfo} {schema other : Schema}
    {nullable partner : Bool} (same : info.plain = bareInfo.plain)
    (alike : schema.plain = other.plain) (agree : nullable = partner) :
    (schema.wrappedBy info.docs nullable).plain =
      (other.wrappedBy bareInfo.docs partner).plain := by
  have docs : info.docs.plain = bareInfo.docs.plain := congrArg SchemaInfo.docs same
  rw [Schema.plain_wrappedBy, Schema.plain_wrappedBy, docs, alike, agree]

section

variable {members others : List (Node × Except CompileError Schema)}
  (each : List.Forall₂ (fun member other =>
    (IsNull member.1 ↔ IsNull other.1) ∧ Schema.Alike member.2 other.2)
    members others)

include each

theorem any_isNull_eq :
    members.any (decide <| IsNull ·.1) = others.any (decide <| IsNull ·.1) := by
  induction each with
  | nil => rfl
  | cons first _ induction =>
      rw [List.any_cons, List.any_cons, induction, decide_eq_decide.mpr first.1]

theorem mapM_members :
    Agree (List.Forall₂ fun variant other => variant.plain = other.plain)
      ((members.filter (¬IsNull ·.1)).mapM (·.2))
      ((others.filter (¬IsNull ·.1)).mapM (·.2)) := by
  refine Agree.mapM (List.Forall₂.imp (fun _ _ met => met.2)
    (List.rel_filter ?_ each))
  intro member other met
  simpa using not_congr met.1

end

section

variable {reading other : Reading} (alike : reading.Alike .members other)
  {info bareInfo : SchemaInfo} (same : info.plain = bareInfo.plain)

include alike

theorem composed_alike (keyword : CompositionKeyword) :
    Agree (List.Forall₂ fun member other =>
        (IsNull member.1 ↔ IsNull other.1) ∧ Schema.Alike member.2 other.2)
      (composed keyword reading) (composed keyword other) := by
  have each := alike.members rfl
  have empty : other.members.isEmpty = reading.members.isEmpty := by
    rw [Bool.eq_iff_iff, List.isEmpty_iff_length_eq_zero,
      List.isEmpty_iff_length_eq_zero, each.length_eq]
  rw [composed, composed, alike.node, empty]
  simp only [Node.isNone_items?_undocumented, Node.location_undocumented]
  split
  · exact .error _
  · split
    · exact .error _
    · exact .ok each

theorem ofAll_alike (same : info.plain = bareInfo.plain) :
    Schema.Alike (ofAll info reading) (ofAll bareInfo other) := by
  rw [ofAll, ofAll, alike.node]
  refine (composed_alike alike .allOf).bind fun members others each => ?_
  simp only [Node.location_undocumented]
  cases each with
  | nil => exact .error _
  | cons first rest =>
      cases rest with
      | nil =>
          refine first.2.bind fun schema partner met => .ok ?_
          exact wrappedBy_eq same met (SchemaInfo.nullable_of_plain same)
      | cons => exact .error _

theorem ofAlternatives_alike (same : info.plain = bareInfo.plain)
    (keyword : CompositionKeyword) :
    Schema.Alike (ofAlternatives info keyword reading)
      (ofAlternatives bareInfo keyword other) := by
  rw [ofAlternatives, ofAlternatives, alike.node]
  refine (composed_alike alike keyword).bind fun members others each => ?_
  have nullable : (info.nullable || members.any (decide <| IsNull ·.1)) =
      (bareInfo.nullable || others.any (decide <| IsNull ·.1)) := by
    rw [SchemaInfo.nullable_of_plain same, any_isNull_eq each]
  refine (mapM_members each).bind fun variants partners met => ?_
  simp only [Node.location_undocumented, nullable]
  cases met with
  | nil => exact .error _
  | cons first rest =>
      cases rest with
      | nil => exact .ok (wrappedBy_eq same first rfl)
      | cons second more =>
          refine .ok ?_
          rw [Schema.plain, Schema.plain,
            Schema.plainVariants_eq (.cons first (.cons second more)),
            SchemaInfo.plain_withNullable same]

end

theorem Alike.schema {source bare : Source} (alike : source.Alike bare) :
    Schema.Alike source.schema bare.schema := by
  rw [Source.schema, Source.schema, alike.nullable]
  refine Agree.bind_self _ fun nullable => ?_
  have info : SchemaInfo.plain ⟨nullable, Keyword.docs source.node, source.location⟩ =
      SchemaInfo.plain ⟨nullable, Keyword.docs bare.node, bare.location⟩ := by
    rw [SchemaInfo.plain, SchemaInfo.plain, alike.docs, alike.location]
  simp only [alike.get? "$ref" (by decide) rfl, alike.types]
  split
  · split
    · exact .error _
    · refine Agree.bind_self _ fun target => .ok ?_
      rw [Schema.plain, Schema.plain, info]
  · refine Agree.bind_self _ fun types => ?_
    have info := SchemaInfo.plain_withNullable info (nullable || types.null)
    rcases alike.held "oneOf" (by decide) with
      ⟨noOneOf, oneOfGone⟩ | ⟨members, others, found, kept, read⟩
    · rcases alike.held "anyOf" (by decide) with
        ⟨noAnyOf, anyOfGone⟩ | ⟨members, others, found, kept, read⟩
      · rcases alike.held "allOf" (by decide) with
          ⟨noAllOf, allOfGone⟩ | ⟨members, others, found, kept, read⟩
        · simp only [noOneOf, oneOfGone, noAnyOf, anyOfGone, noAllOf, allOfGone]
          exact alike.ofValues info types
        · simp only [noOneOf, oneOfGone, noAnyOf, anyOfGone, found, kept]
          exact ofAll_alike read info
      · simp only [noOneOf, oneOfGone, found, kept]
        exact ofAlternatives_alike read info .anyOf
    · simp only [found, kept]
      exact ofAlternatives_alike read info .oneOf

/-- The values of the mappings are alike, so the mappings are. -/
theorem alike_ofMapping {role : Role} (reads : role.ReadsSchema) {location : Location}
    {entries kept : List (String × Node)}
    (each : ∀ entry ∈ entries, ∀ role,
      (ofNode entry.2).Alike role (ofNode (entry.2.undocumented true role)))
    (shape : (Node.mapping location entries).undocumented true role =
      .mapping location kept) :
    (ofMapping location entries).Alike (ofMapping location kept) where
  location := rfl
  get? keyword other whole := by
    have found :=
      Node.get?_undocumented_other true reads other whole (.mapping location entries)
    rw [shape] at found
    exact found
  held keyword other := by
    have found := Node.get?_undocumented true reads other (.mapping location entries)
    rw [shape] at found
    simp only [Node.get?, Node.entries?, Option.bind_some] at found
    rw [value?_ofMapping, value?_ofMapping, found]
    cases held : entries.lookup keyword with
    | none => exact .inl ⟨rfl, rfl⟩
    | some value =>
        have stands : (Node.mapping location entries).get? keyword = some value := held
        exact .inr ⟨_, _, rfl, rfl, each _ (Node.mem_of_get? stands) _⟩

end Source

theorem isNull_undocumented (node : Node) :
    IsNull (node.undocumented true .schema) ↔ IsNull node := by
  rw [IsNull, IsNull, Node.get?_undocumented_other true .schema (by decide) rfl]

/-- By induction on the node, since what a schema holds is read in other roles. -/
theorem alike_undocumented (node : Node) (role : Role) :
    (ofNode node).Alike role (ofNode (node.undocumented true role)) := by
  induction node using Node.inductionOn generalizing role with
  | scalar location value =>
      rw [Node.undocumented_scalar]
      exact ⟨(Node.undocumented_scalar ..).symm, fun _ => .error _, fun _ => .nil,
        fun _ => .nil⟩
  | sequence location items each =>
      constructor
      case node => rw [node_ofNode, node_ofNode]
      case schema =>
        intro reads
        cases reads <;> exact .error _
      case entries =>
        rintro rfl
        exact .nil
      case members =>
        rintro rfl
        rw [Node.undocumented_members, members_ofNode, members_ofNode]
        simp only [Node.items?, Option.getD_some, List.map_map]
        refine List.forall₂_map_left_iff.mpr (List.forall₂_map_right_iff.mpr ?_)
        refine List.forall₂_same.mpr fun item member => ?_
        exact ⟨(isNull_undocumented item).symm, (each item member .schema).schema .schema⟩
  | mapping location entries each =>
      constructor
      case node => rw [node_ofNode, node_ofNode]
      case schema =>
        intro reads
        obtain ⟨kept, shape⟩ := Node.undocumented_mapping true location reads entries
        rw [shape, schema_ofMapping, schema_ofMapping]
        exact (Source.alike_ofMapping reads each shape).schema
      case entries =>
        rintro rfl
        rw [Node.undocumented_entries, entries_ofNode, entries_ofNode]
        simp only [Node.entries?, Option.getD_some, List.map_map]
        refine List.forall₂_map_left_iff.mpr (List.forall₂_map_right_iff.mpr ?_)
        refine List.forall₂_same.mpr fun entry member => ?_
        exact ⟨rfl, (each entry member .schema).schema .schema⟩
      case members =>
        rintro rfl
        exact .nil

end Reading

end Schemata
