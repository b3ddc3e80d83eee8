import Schemata.Proofs.Document.Loaded
import Schemata.Proofs.Schema.Enumeration
import Schemata.Proofs.Schema.Place

namespace Schemata

/-! Every shape inside a schema keeps the promises of its kind: an enumeration has different
values, a union has alternatives, and an object has the properties of its node. -/

namespace Node

def Requires (node : Node) (name : String) : Prop :=
  ∃ names, node.get? "required" = some names ∧
    ∃ item ∈ names.members, item.string? = some name

/-- The fields are the properties of the node in their order, and the required ones are
those that the node requires. -/
def Declares (node : Node) (fields : List (String × Bool)) : Prop :=
  ∃ entries, (node.get? "properties").bind entries? = some entries ∧
    List.Forall₂ (fun entry field =>
      field.1 = entry.1 ∧ (field.2 = true ↔ node.Requires entry.1)) entries fields

theorem Declares.exists_entries {node : Node} {fields : List (String × Bool)}
    (declares : node.Declares fields) :
    ∃ entries, (node.get? "properties").bind entries? = some entries ∧
      fields.map Prod.fst = entries.map Prod.fst := by
  obtain ⟨entries, listed, each⟩ := declares
  have names : List.Forall₂ (· = ·) (fields.map Prod.fst) (entries.map Prod.fst) :=
    List.forall₂_map_left_iff.mpr (List.forall₂_map_right_iff.mpr
      (each.flip.imp fun _ _ one => one.1))
  rw [List.forall₂_eq_eq_eq] at names
  exact ⟨entries, listed, names⟩

theorem Declares.nodup {node : Node} {fields : List (String × Bool)}
    (declares : node.Declares fields) (distinct : node.KeysDistinct) :
    (fields.map Prod.fst).Nodup := by
  obtain ⟨entries, listed, names⟩ := declares.exists_entries
  obtain ⟨properties, found, held⟩ := Option.bind_eq_some_iff.mp listed
  rw [names]
  cases distinct.get? found with
  | scalar | sequence => cases held
  | mapping _ keys =>
      cases held
      exact keys

end Node

namespace Keyword

open Outcome

theorem mem_iff_of_mapM {α β : Type} {read : α → Option β} {items : List α}
    {results : List β} (reads : items.mapM read = some results) {result : β} :
    result ∈ results ↔ ∃ item ∈ items, read item = some result := by
  induction items generalizing results with
  | nil =>
      cases reads
      simp
  | cons item rest induction =>
      rw [List.mapM_cons] at reads
      obtain ⟨first, here, later⟩ := Option.bind_eq_some_iff.mp reads
      obtain ⟨others, each, same⟩ := Option.bind_eq_some_iff.mp later
      cases same
      simp [here, induction each, eq_comm]

theorem mem_required_iff {node : Node} {names : List String} {name : String}
    (reads : required node = .ok names) : name ∈ names ↔ node.Requires name := by
  rw [required] at reads
  rw [Node.Requires]
  split at reads
  · next absent =>
    cases reads
    simp [absent]
  · next list found =>
    split at reads
    · next listed =>
      cases reads
      obtain ⟨items, held, each⟩ := Option.bind_eq_some_iff.mp listed
      rw [mem_iff_of_mapM each]
      simp [found, Node.members, held]
    · cases reads

theorem distinct_of_enum {node : Node} {values : List Literal}
    (reads : enum node = .ok values) :
    values ≠ [] ∧ values.Pairwise fun left right => ¬ left.Equals right := by
  rw [enum] at reads
  split at reads
  · cases reads
  · cases reads
  · next items nonempty _ =>
    obtain ⟨each, distinct⟩ := distinctLiterals_eq_ok_iff.mp reads
    refine ⟨?_, (List.pairwise_map.mp distinct).imp (mt Literal.equals_iff.mp)⟩
    rintro rfl
    cases each
    exact nonempty rfl

end Keyword

namespace Schema

def ShapedBy (node : Node) : Schema → Prop
  | .enum _ values =>
      values ≠ [] ∧ values.Pairwise fun left right => ¬ left.Equals right
  | .union _ variants => 2 ≤ variants.length
  | .object _ properties =>
      node.Declares (properties.map fun property => (property.name, property.required))
  | _ => True

/-- The schema is put together in place, not taken from a part. -/
structure FormedBy (info : SchemaInfo) (node : Node) (schema : Schema) : Prop where
  info_eq : schema.info = info
  shaped : schema.ShapedBy node

/-- A wrapper around one schema leaves the shape to that schema. -/
inductive ShapedOrWrapped (node : Node) (parts : List Node) : Schema → Prop
  | shaped {schema : Schema} (here : schema.location = node.location)
      (shaped : schema.ShapedBy node) : ShapedOrWrapped node parts schema
  | wrapped {part : Node} {inner : Schema} (docs : Docs) (nullable : Bool)
      (below : part ∈ parts) (reads : ofNode part = .ok inner) :
      ShapedOrWrapped node parts (inner.wrappedBy docs nullable)

theorem FormedBy.shapedOrWrapped {info : SchemaInfo} {node : Node} {parts : List Node}
    {schema : Schema} (formed : schema.FormedBy info node)
    (here : info.location = node.location) : schema.ShapedOrWrapped node parts :=
  .shaped ((congrArg SchemaInfo.location formed.info_eq).trans here) formed.shaped

theorem shapedBy_of_not_needsName {node : Node} {schema : Schema}
    (plain : ¬ schema.NeedsName) : schema.ShapedBy node := by
  cases schema with
  | enum | object | union => exact absurd trivial plain
  | reference | primitive | array | map | untypedMap => trivial

theorem shapedBy_wrappedBy {docs : Docs} {nullable : Bool} {node : Node} {schema : Schema} :
    (schema.wrappedBy docs nullable).ShapedBy node ↔ schema.ShapedBy node := by
  cases schema <;> rfl

theorem needsName_wrappedBy {docs : Docs} {nullable : Bool} {schema : Schema} :
    (schema.wrappedBy docs nullable).NeedsName ↔ schema.NeedsName := by
  cases schema <;> rfl

end Schema

namespace Reading.Source

open Keyword Outcome Schema

section

variable {location : Location} {entries : List (String × Node)} {info : SchemaInfo}
  {schema : Schema}

theorem formed_array (reads : (ofMapping location entries).array info = .ok schema) :
    schema.FormedBy info (.mapping location entries) := by
  rw [array] at reads
  split at reads
  · cases reads
  · split at reads
    · cases reads
    · obtain ⟨inner, _, made⟩ := bind_eq_ok_iff.mp reads
      cases made
      exact ⟨rfl, trivial⟩

theorem formed_propertyless {declared : Bool}
    (empty : declared = true → (Node.mapping location entries).Declares [])
    (reads : (ofMapping location entries).propertyless info declared = .ok schema) :
    schema.FormedBy info (.mapping location entries) := by
  rw [propertyless] at reads
  split at reads
  · split at reads
    · next held =>
      cases reads
      exact ⟨rfl, empty held⟩
    · cases reads
  · split at reads
    · cases reads
      exact ⟨rfl, trivial⟩
    · split at reads
      · next held =>
        cases reads
        exact ⟨rfl, empty held⟩
      · cases reads
    · cases reads
      exact ⟨rfl, trivial⟩
    · obtain ⟨values, _, made⟩ := bind_eq_ok_iff.mp reads
      cases made
      exact ⟨rfl, trivial⟩
    · cases reads
    · cases reads

theorem declares_of_properties? {required : List String}
    {properties : List (Property Schema)}
    (listed : Keyword.required (.mapping location entries) = .ok required)
    (reads : (ofMapping location entries).properties? required = .ok (some properties)) :
    (Node.mapping location entries).Declares
      (properties.map fun property => (property.name, property.required)) := by
  rcases properties_of_properties? reads with ⟨absent, _⟩ | ⟨named, all, same, held, each⟩
  · cases absent
  · cases same
    refine ⟨named, held, List.forall₂_map_right_iff.mpr (each.imp ?_)⟩
    rintro entry property ⟨name, marked, -⟩
    refine ⟨name, ?_⟩
    rw [marked, decide_eq_true_iff, mem_required_iff listed]

theorem formed_object (reads : (ofMapping location entries).object info = .ok schema) :
    schema.FormedBy info (.mapping location entries) := by
  obtain ⟨required, listed, later⟩ := bind_eq_ok_iff.mp reads
  obtain ⟨properties, found, made⟩ := bind_eq_ok_iff.mp later
  rcases properties with _ | _ | ⟨first, rest⟩
  · refine formed_propertyless ?_ made
    nofun
  · exact formed_propertyless (fun _ => declares_of_properties? listed found) made
  · cases made
    exact ⟨rfl, declares_of_properties? listed found⟩

theorem formed_primitiveUnion {words : List TypeWord} (several : 2 ≤ words.length)
    (reads : (ofMapping location entries).primitiveUnion info words = .ok schema) :
    schema.FormedBy info (.mapping location entries) := by
  rw [primitiveUnion] at reads
  split at reads
  · cases reads
  · cases reads
    refine ⟨rfl, ?_⟩
    rwa [ShapedBy, List.length_map]

theorem formed_ofTypes {types : TypeWords}
    (reads : (ofMapping location entries).ofTypes info types = .ok schema) :
    schema.FormedBy info (.mapping location entries) := by
  rw [ofTypes] at reads
  obtain ⟨words, null⟩ := types
  dsimp only at reads
  rcases words with _ | ⟨word, _ | ⟨second, rest⟩⟩
  · dsimp only at reads
    split at reads
    · cases reads
    · split at reads
      · exact formed_object reads
      · split at reads
        · exact formed_array reads
        · cases reads
  · cases word with
    | object => exact formed_object reads
    | array => exact formed_array reads
    | string | number | integer | boolean =>
        cases reads
        exact ⟨rfl, trivial⟩
  · have several : 2 ≤ (word :: second :: rest).length := Nat.le_add_left 2 rest.length
    cases word <;> exact formed_primitiveUnion several reads

theorem formed_ofValues {types : TypeWords}
    (reads : (ofMapping location entries).ofValues info types = .ok schema) :
    schema.FormedBy info (.mapping location entries) := by
  rw [ofValues] at reads
  split at reads
  · obtain ⟨values, listed, made⟩ := bind_eq_ok_iff.mp reads
    cases made
    exact ⟨rfl, distinct_of_enum listed⟩
  · obtain ⟨value, _, made⟩ := bind_eq_ok_iff.mp reads
    cases made
    exact ⟨rfl, List.cons_ne_nil _ _, List.pairwise_singleton _ _⟩
  · exact formed_ofTypes reads

theorem shapedOrWrapped_ofAlternatives {keyword : CompositionKeyword} {node list : Node}
    (here : info.location = node.location)
    (reads : ofAlternatives info keyword (ofNode list) = .ok schema) :
    schema.ShapedOrWrapped node (list.members.filter (¬IsNull ·)) := by
  obtain ⟨members, listed, later⟩ := bind_eq_ok_iff.mp reads
  obtain ⟨variants, each, made⟩ := bind_eq_ok_iff.mp later
  rw [members_of_composed listed, List.filter_map, mapM_eq_ok_iff,
    List.forall₂_map_left_iff] at each
  rcases variants with _ | ⟨only, _ | ⟨second, rest⟩⟩
  · cases made
  · cases made
    obtain ⟨part, member, read⟩ := exists_of_forall₂ each.flip List.mem_cons_self
    exact .wrapped _ _ member read
  · cases made
    exact .shaped here (Nat.le_add_left 2 rest.length)

theorem shapedOrWrapped_ofAll {node list : Node}
    (reads : ofAll info (ofNode list) = .ok schema) :
    schema.ShapedOrWrapped node list.members := by
  obtain ⟨members, listed, later⟩ := bind_eq_ok_iff.mp reads
  rw [members_of_composed listed] at later
  generalize list.members = items at later ⊢
  rcases items with _ | ⟨only, _ | ⟨second, rest⟩⟩
  · cases later
  · obtain ⟨inner, read, made⟩ := bind_eq_ok_iff.mp later
    cases made
    exact .wrapped _ _ List.mem_cons_self read
  · cases later

end

end Reading.Source

namespace Schema

open Outcome Reading

theorem shapedOrWrapped_of_ofNode {node : Node} {schema : Schema}
    (reads : ofNode node = .ok schema) :
    schema.ShapedOrWrapped node node.subschemas := by
  obtain ⟨location, entries, rfl⟩ := mapping_of_ofNode reads
  rw [ofNode, schema_ofMapping, Source.schema] at reads
  obtain ⟨nullable, _, later⟩ := bind_eq_ok_iff.mp reads
  have node_eq : (Source.ofMapping location entries).node =
    .mapping location entries := rfl
  rw [node_eq] at later
  cases refers : (Node.mapping location entries).get? "$ref" with
  | some reference =>
      rw [refers] at later
      dsimp only at later
      split at later
      · cases later
      · obtain ⟨target, _, made⟩ := bind_eq_ok_iff.mp later
        cases made
        exact .shaped rfl trivial
  | none =>
      rw [refers] at later
      obtain ⟨types, _, made⟩ := bind_eq_ok_iff.mp later
      simp only [Source.value?_eq] at made
      rw [Node.subschemas, refers, if_neg (by simp)]
      generalize (Node.mapping location entries).get? "oneOf" = oneOf at made ⊢
      generalize (Node.mapping location entries).get? "anyOf" = anyOf at made ⊢
      generalize (Node.mapping location entries).get? "allOf" = allOf at made ⊢
      rcases oneOf with _ | alternatives
      · rcases anyOf with _ | alternatives
        · rcases allOf with _ | all
          · exact (Source.formed_ofValues made).shapedOrWrapped rfl
          · exact Source.shapedOrWrapped_ofAll made
        · exact Source.shapedOrWrapped_ofAlternatives rfl made
      · exact Source.shapedOrWrapped_ofAlternatives rfl made

theorem Composes.within_subset {location : Location} {parts : List Schema}
    {schema inner : Schema} (composes : Composes location parts schema)
    (member : inner ∈ schema.within) (named : inner.NeedsName) :
    inner ∈ parts.flatMap nodes := by
  cases composes with
  | alone _ bare =>
      rw [bare] at member
      cases member
  | types _ shared kinds =>
      rw [within, withinVariants_primitives] at member
      obtain ⟨kind, _, rfl⟩ := List.mem_map.mp member
      cases named
  | array _ items | map _ items => rwa [List.flatMap_singleton]
  | object _ properties => rwa [within, withinProperties_eq_flatMap] at member
  | union _ variants => rwa [within, withinVariants_eq_flatMap] at member
  | wrapped docs nullable schema =>
      have same : (schema.wrappedBy docs nullable).within = schema.within := by
        cases schema <;> rfl
      rw [List.flatMap_singleton]
      exact List.mem_append_left _ (same ▸ member)

/-- A shape is shaped by a node that is read on the way to the schema and stands where the
shape does. -/
theorem exists_shapedBy {node : Node} {schema inner : Schema}
    (reads : ofNode node = .ok schema) (member : inner ∈ schema.nodes)
    (named : inner.NeedsName) :
    ∃ part ∈ node.schemaNodes, part.location = inner.location ∧ inner.ShapedBy part := by
  rw [Node.schemaNodes_eq]
  rcases List.mem_append.mp member with within | own
  · rcases referring_or_madeFrom reads with
      ⟨_, _, info, target, _, _, rfl, _⟩ | ⟨_, schemas, each, composes⟩
    · cases within
    · obtain ⟨held, among, inside⟩ :=
        List.mem_flatMap.mp (composes.within_subset within named)
      obtain ⟨part, below, read⟩ := exists_of_forall₂ each.flip among
      have smaller := Node.sizeOf_subschemas below
      obtain ⟨deeper, visited, shaped⟩ := exists_shapedBy read inside named
      refine ⟨deeper, List.mem_append_left _ ?_, shaped⟩
      exact List.mem_flatMap.mpr ⟨part, below, visited⟩
  · obtain rfl := List.mem_singleton.mp own
    cases shapedOrWrapped_of_ofNode reads with
    | shaped here shaped =>
        exact ⟨node, List.mem_append_right _ List.mem_cons_self, here.symm, shaped⟩
    | @wrapped part held docs nullable below read =>
        -- The wrapper takes over the place of what it wraps, so the node is that of the part.
        have smaller := Node.sizeOf_subschemas below
        have self : held ∈ held.nodes :=
          List.mem_append_right _ List.mem_cons_self
        obtain ⟨deeper, visited, here, shaped⟩ :=
          exists_shapedBy read self (needsName_wrappedBy.mp named)
        refine ⟨deeper, List.mem_append_left _ ?_, ?_, shapedBy_wrappedBy.mpr shaped⟩
        · exact List.mem_flatMap.mpr ⟨part, below, visited⟩
        · rw [here, location, location, wrappedBy, info_withInfo]
          rfl
termination_by sizeOf node

end Schema

end Schemata
