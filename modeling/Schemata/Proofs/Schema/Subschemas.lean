import Mathlib.Logic.Relation
import Schemata.Proofs.Document.Node
import Schemata.Proofs.Outcome
import Schemata.Proofs.Schema.Composition
import Schemata.Schema.Forest

namespace Schemata

/-! The nodes that are read as schemas on the way to the schema of a node. -/

namespace Node

open Keyword

def additionalParts (node : Node) : List Node :=
  match node.get? "additionalProperties" with
  | some (.mapping location (first :: rest)) => [.mapping location (first :: rest)]
  | _ => []

/-- An object with properties needs none of its additional properties. -/
def objectParts (node : Node) : List Node :=
  match (node.get? "properties").bind entries? with
  | some (first :: rest) => (first :: rest).map Prod.snd
  | _ => node.additionalParts

def shapeParts (node : Node) (types : TypeWords) : List Node :=
  match types.words with
  | [] =>
      if (node.get? "properties").isSome ∨ (node.get? "additionalProperties").isSome then
        node.objectParts
      else (node.get? "items").toList
  | [.object] => node.objectParts
  | [.array] => (node.get? "items").toList
  | _ => []

def members (node : Node) : List Node :=
  node.items?.getD []

/-- The precedence of the keywords is that of reading. -/
def subschemas (node : Node) : List Node :=
  if (node.get? "$ref").isSome then []
  else
    match node.get? "oneOf", node.get? "anyOf", node.get? "allOf" with
    | some alternatives, _, _ | none, some alternatives, _ =>
        alternatives.members.filter (¬IsNull ·)
    | none, none, some all => all.members
    | none, none, none =>
        if (node.get? "enum").isSome ∨ (node.get? "const").isSome then []
        else
          match types node with
          | .ok types => node.shapeParts types
          | .error _ => []

variable {node inner : Node}

theorem sizeOf_additionalParts (member : inner ∈ node.additionalParts) :
    sizeOf inner < sizeOf node := by
  rw [additionalParts] at member
  split at member
  · next found =>
    rw [List.mem_singleton.mp member]
    exact sizeOf_get? found
  · cases member

theorem sizeOf_objectParts (member : inner ∈ node.objectParts) :
    sizeOf inner < sizeOf node := by
  rw [objectParts] at member
  split at member
  · next first rest found =>
    obtain ⟨properties, held, shape⟩ := Option.bind_eq_some_iff.mp found
    obtain ⟨entry, among, rfl⟩ := List.mem_map.mp member
    cases properties with
    | scalar | sequence => cases shape
    | mapping _ entries =>
        cases shape
        exact Nat.lt_trans (sizeOf_value among) (sizeOf_get? held)
  · exact sizeOf_additionalParts member

theorem sizeOf_toList_get? {key : String} (member : inner ∈ (node.get? key).toList) :
    sizeOf inner < sizeOf node :=
  sizeOf_get? (Option.mem_toList.mp member)

theorem sizeOf_shapeParts {types : TypeWords} (member : inner ∈ node.shapeParts types) :
    sizeOf inner < sizeOf node := by
  rw [shapeParts] at member
  split at member
  · split at member
    · exact sizeOf_objectParts member
    · exact sizeOf_toList_get? member
  · exact sizeOf_objectParts member
  · exact sizeOf_toList_get? member
  · cases member

theorem sizeOf_members {key : String} {list : Node} (found : node.get? key = some list)
    (member : inner ∈ list.members) : sizeOf inner < sizeOf node := by
  cases list with
  | scalar | mapping => cases member
  | sequence location items =>
      have inside : inner ∈ items := member
      exact Nat.lt_trans (sizeOf_item inside) (sizeOf_get? found)

/-- What is read on the way to a schema is smaller than the schema, so reading ends. -/
theorem sizeOf_subschemas (member : inner ∈ node.subschemas) :
    sizeOf inner < sizeOf node := by
  rw [subschemas] at member
  split at member
  · cases member
  · split at member
    · next found => exact sizeOf_members found (List.mem_filter.mp member).1
    · next found => exact sizeOf_members found (List.mem_filter.mp member).1
    · next found => exact sizeOf_members found member
    · split at member
      · cases member
      · split at member
        · exact sizeOf_shapeParts member
        · cases member

end Node

namespace Schema

/-- The nodes are read as schemas, and the whole is put together from them. -/
def MadeFrom (schema : Schema) (location : Location) (parts : List Node) : Prop :=
  ∃ inner, List.Forall₂ (fun part schema => ofNode part = .ok schema) parts inner ∧
    Composes location inner schema

theorem madeFrom_nil {schema : Schema} {location : Location}
    (here : schema.location = location) (bare : schema.within = [])
    (silent : schema.references = []) : schema.MadeFrom location [] :=
  ⟨[], .nil, .alone here bare silent⟩

theorem MadeFrom.of_mem {parts : List Node} {schema : Schema} {location : Location}
    {part : Node} (made : schema.MadeFrom location parts) (member : part ∈ parts) :
    ∃ held, ofNode part = .ok held ∧ held.references ⊆ schema.references := by
  obtain ⟨inner, each, composes⟩ := made
  obtain ⟨held, among, read⟩ := Outcome.exists_of_forall₂ each member
  refine ⟨held, read, ?_⟩
  rw [composes.references]
  exact fun reference inside => List.mem_flatMap.mpr ⟨held, among, inside⟩

theorem madeFrom_of_properties {info : SchemaInfo} {location : Location}
    (here : info.location = location) {entries : List (String × Node)}
    {properties : List (Property Schema)}
    (each : List.Forall₂ (fun entry property => ofNode entry.2 = .ok property.schema)
      entries properties) :
    (object info properties).MadeFrom location (entries.map Prod.snd) := by
  refine ⟨properties.map (·.schema), ?_, .object here properties⟩
  exact List.forall₂_map_left_iff.mpr (List.forall₂_map_right_iff.mpr each)

end Schema

namespace Reading.Source

open Keyword Outcome

section

variable {location : Location} {entries : List (String × Node)} {info : SchemaInfo}
  {schema : Schema}

theorem value?_eq (keyword : String) :
    (ofMapping location entries).value? keyword =
      ((Node.mapping location entries).get? keyword).map ofNode :=
  value?_ofMapping location entries keyword

theorem madeFrom_array (here : info.location = location)
    (reads : (ofMapping location entries).array info = .ok schema) :
    schema.MadeFrom location ((Node.mapping location entries).get? "items").toList := by
  rw [array, value?_eq] at reads
  cases found : (Node.mapping location entries).get? "items" with
  | none => rw [found] at reads; cases reads
  | some items =>
      rw [found] at reads
      simp only [Option.map_some] at reads
      split at reads
      · cases reads
      · obtain ⟨inner, item, made⟩ := bind_eq_ok_iff.mp reads
        cases made
        exact ⟨[inner], .cons item .nil, .array here inner⟩

theorem madeFrom_propertyless {declared : Bool} (here : info.location = location)
    (reads : (ofMapping location entries).propertyless info declared = .ok schema) :
    schema.MadeFrom location (Node.mapping location entries).additionalParts := by
  rw [propertyless, value?_eq] at reads
  rw [Node.additionalParts]
  cases found : (Node.mapping location entries).get? "additionalProperties" with
  | none =>
      rw [found, Option.map_none] at reads
      dsimp only at reads
      split at reads
      · cases reads
        exact Schema.madeFrom_nil here rfl rfl
      · cases reads
  | some additional =>
      rw [found, Option.map_some] at reads
      dsimp only at reads
      rw [node_ofNode] at reads
      rcases additional with
        ⟨at_, _ | ⟨_ | _⟩ | _ | _⟩ | ⟨at_, items⟩ | ⟨at_, _ | ⟨first, rest⟩⟩
      · cases reads
      · dsimp only at reads
        split at reads
        · cases reads
          exact Schema.madeFrom_nil here rfl rfl
        · cases reads
      · cases reads
        exact Schema.madeFrom_nil here rfl rfl
      · cases reads
      · cases reads
      · cases reads
      · cases reads
        exact Schema.madeFrom_nil here rfl rfl
      · obtain ⟨values, held, made⟩ := bind_eq_ok_iff.mp reads
        cases made
        exact ⟨[values], .cons held .nil, .map here values⟩

theorem properties_of_properties? {required : List String}
    {properties : Option (List (Property Schema))}
    (reads : (ofMapping location entries).properties? required = .ok properties) :
    (properties = none ∧ (Node.mapping location entries).get? "properties" = none) ∨
      ∃ named some_, properties = some some_ ∧
        ((Node.mapping location entries).get? "properties").bind Node.entries? =
          some named ∧
        List.Forall₂ (fun entry property => property.name = entry.1 ∧
          property.required = decide (entry.1 ∈ required) ∧
          Schema.ofNode entry.2 = .ok property.schema) named some_ := by
  rw [properties?, value?_eq] at reads
  cases found : (Node.mapping location entries).get? "properties" with
  | none =>
      rw [found] at reads
      cases reads
      exact .inl ⟨rfl, rfl⟩
  | some node =>
      rw [found, Option.map_some] at reads
      dsimp only at reads
      rw [node_ofNode, entries_ofNode] at reads
      cases held : node.entries? with
      | none => rw [held] at reads; cases reads
      | some named =>
          rw [held] at reads
          obtain ⟨all, each, made⟩ := bind_eq_ok_iff.mp reads
          cases made
          have read := List.forall₂_map_left_iff.mp (mapM_eq_ok_iff.mp each)
          refine .inr ⟨named, all, rfl, held, read.imp fun entry property one => ?_⟩
          obtain ⟨schema, inner, same⟩ := bind_eq_ok_iff.mp one
          cases same
          exact ⟨rfl, rfl, inner⟩

theorem madeFrom_object (here : info.location = location)
    (reads : (ofMapping location entries).object info = .ok schema) :
    schema.MadeFrom location (Node.mapping location entries).objectParts := by
  obtain ⟨required, _, later⟩ := bind_eq_ok_iff.mp reads
  obtain ⟨properties, found, made⟩ := bind_eq_ok_iff.mp later
  rw [Node.objectParts]
  rcases properties_of_properties? found with
    ⟨rfl, absent⟩ | ⟨named, all, rfl, held, each⟩
  · rw [absent]
    exact madeFrom_propertyless here made
  · rw [held]
    have read : List.Forall₂ (fun entry property =>
        Schema.ofNode entry.2 = .ok property.schema) named all :=
      each.imp fun _ _ one => one.2.2
    cases each with
    | nil => exact madeFrom_propertyless here made
    | cons =>
        cases made
        exact Schema.madeFrom_of_properties here read

theorem madeFrom_primitiveUnion {words : List TypeWord} (here : info.location = location)
    (reads : (ofMapping location entries).primitiveUnion info words = .ok schema) :
    schema.MadeFrom location [] := by
  rw [primitiveUnion] at reads
  split at reads
  · cases reads
  · cases reads
    refine ⟨[], .nil, ?_⟩
    have types := Schema.Composes.types here ⟨false, .empty, location.child "type"⟩
      (words.map (primitive (Node.mapping location entries)))
    rwa [List.map_map] at types

theorem madeFrom_ofTypes {types : TypeWords} (here : info.location = location)
    (reads : (ofMapping location entries).ofTypes info types = .ok schema) :
    schema.MadeFrom location ((Node.mapping location entries).shapeParts types) := by
  rw [ofTypes] at reads
  rw [Node.shapeParts]
  obtain ⟨words, null⟩ := types
  dsimp only at reads ⊢
  rcases words with _ | ⟨word, _ | ⟨second, rest⟩⟩
  · dsimp only at reads ⊢
    simp only [value?_eq, Option.isSome_map] at reads
    split at reads
    · cases reads
    · split at reads
      · next shaped =>
        rw [if_pos shaped]
        exact madeFrom_object here reads
      · next shapeless =>
        rw [if_neg shapeless]
        split at reads
        · exact madeFrom_array here reads
        · cases reads
  · cases word with
    | object => exact madeFrom_object here reads
    | array => exact madeFrom_array here reads
    | string | number | integer | boolean =>
        cases reads
        exact Schema.madeFrom_nil here rfl rfl
  · cases word <;> exact madeFrom_primitiveUnion here reads

theorem madeFrom_ofValues {types : TypeWords} (here : info.location = location)
    (reads : (ofMapping location entries).ofValues info types = .ok schema) :
    schema.MadeFrom location
      (if ((Node.mapping location entries).get? "enum").isSome ∨
          ((Node.mapping location entries).get? "const").isSome then []
        else (Node.mapping location entries).shapeParts types) := by
  rw [ofValues, value?_eq, value?_eq] at reads
  cases listed : (Node.mapping location entries).get? "enum" with
  | some values =>
      rw [listed] at reads
      obtain ⟨literals, _, made⟩ := bind_eq_ok_iff.mp reads
      cases made
      rw [if_pos (.inl rfl)]
      exact Schema.madeFrom_nil here rfl rfl
  | none =>
      cases single : (Node.mapping location entries).get? "const" with
      | some value =>
          rw [listed, single] at reads
          obtain ⟨literal, _, made⟩ := bind_eq_ok_iff.mp reads
          cases made
          rw [if_pos (.inr rfl)]
          exact Schema.madeFrom_nil here rfl rfl
      | none =>
          rw [listed, single] at reads
          rw [if_neg (by simp)]
          exact madeFrom_ofTypes here reads

theorem members_of_composed {keyword : CompositionKeyword} {node : Node}
    {members : List (Node × Except CompileError Schema)}
    (reads : composed keyword (ofNode node) = .ok members) :
    members = node.members.map fun item => (item, Schema.ofNode item) := by
  rw [composed] at reads
  split at reads
  · cases reads
  · split at reads
    · cases reads
    · cases reads
      exact members_ofNode node

theorem madeFrom_ofAlternatives {keyword : CompositionKeyword} {node : Node}
    (here : info.location = location)
    (reads : ofAlternatives info keyword (ofNode node) = .ok schema) :
    schema.MadeFrom location (node.members.filter (¬IsNull ·)) := by
  obtain ⟨members, listed, later⟩ := bind_eq_ok_iff.mp reads
  obtain ⟨variants, each, made⟩ := bind_eq_ok_iff.mp later
  rw [members_of_composed listed, List.filter_map, mapM_eq_ok_iff,
    List.forall₂_map_left_iff] at each
  refine ⟨variants, each, ?_⟩
  rcases variants with _ | ⟨only, _ | ⟨second, rest⟩⟩
  · cases made
  · cases made
    exact .wrapped _ _ only
  · cases made
    apply Schema.Composes.union
    exact here

theorem madeFrom_ofAll {node : Node} (reads : ofAll info (ofNode node) = .ok schema) :
    schema.MadeFrom location node.members := by
  obtain ⟨members, listed, later⟩ := bind_eq_ok_iff.mp reads
  rw [members_of_composed listed] at later
  generalize node.members = items at later ⊢
  rcases items with _ | ⟨only, _ | ⟨second, rest⟩⟩
  · cases later
  · obtain ⟨inner, read, made⟩ := bind_eq_ok_iff.mp later
    cases made
    exact ⟨[inner], .cons read .nil, .wrapped _ _ inner⟩
  · cases later

end

end Reading.Source

namespace Schema

open Outcome Reading

variable {node : Node} {schema : Schema}

/-- Whatever is read as a schema is a mapping. -/
theorem mapping_of_ofNode (reads : ofNode node = .ok schema) :
    ∃ location entries, node = .mapping location entries := by
  cases node with
  | scalar | sequence => cases reads
  | mapping location entries => exact ⟨location, entries, rfl⟩

/-- A schema is a reference, or made from the schemas that are read on the way to it. -/
theorem referring_or_madeFrom (reads : ofNode node = .ok schema) :
    (∃ at_ pointer info target,
      node.get? "$ref" = some (.scalar at_ (.string pointer)) ∧
      Reference.read pointer at_ = .ok target ∧ schema = .reference info target ∧
      info.location = node.location) ∨
    node.get? "$ref" = none ∧ schema.MadeFrom node.location node.subschemas := by
  obtain ⟨location, entries, rfl⟩ := mapping_of_ofNode reads
  rw [ofNode, schema_ofMapping, Source.schema] at reads
  obtain ⟨nullable, _, later⟩ := bind_eq_ok_iff.mp reads
  have node_eq : (Source.ofMapping location entries).node =
    .mapping location entries := rfl
  rw [node_eq] at later
  cases refers : (Node.mapping location entries).get? "$ref" with
  | some reference =>
      rw [refers] at later
      rcases reference with ⟨at_, _ | _ | _ | pointer⟩ | _ | _
      case scalar.string =>
        obtain ⟨target, read, made⟩ := bind_eq_ok_iff.mp later
        cases made
        exact .inl ⟨at_, pointer, _, target, rfl, read, rfl, rfl⟩
      all_goals cases later
  | none =>
      rw [refers] at later
      obtain ⟨types, typed, made⟩ := bind_eq_ok_iff.mp later
      refine .inr ⟨rfl, ?_⟩
      simp only [Source.value?_eq] at made
      rw [Node.subschemas, refers, if_neg (by simp)]
      generalize (Node.mapping location entries).get? "oneOf" = oneOf at made ⊢
      generalize (Node.mapping location entries).get? "anyOf" = anyOf at made ⊢
      generalize (Node.mapping location entries).get? "allOf" = allOf at made ⊢
      rcases oneOf with _ | alternatives
      · rcases anyOf with _ | alternatives
        · rcases allOf with _ | all
          · rw [typed]
            exact Source.madeFrom_ofValues rfl made
          · exact Source.madeFrom_ofAll made
        · exact Source.madeFrom_ofAlternatives rfl made
      · exact Source.madeFrom_ofAlternatives rfl made

theorem reference_of_ofNode {at_ : Location} {pointer : String}
    (refers : node.get? "$ref" = some (.scalar at_ (.string pointer)))
    (reads : ofNode node = .ok schema) :
    ∃ info target, schema = .reference info target ∧ info.location = node.location ∧
      Reference.read pointer at_ = .ok target := by
  rcases referring_or_madeFrom reads with
    ⟨_, _, info, target, found, read, made, stands⟩ | ⟨concrete, _⟩
  · cases refers.symm.trans found
    exact ⟨info, target, made, stands, read⟩
  · cases refers.symm.trans concrete

theorem ofNode_of_mem_subschemas {inner : Node} (reads : ofNode node = .ok schema)
    (member : inner ∈ node.subschemas) :
    ∃ held, ofNode inner = .ok held ∧ held.references ⊆ schema.references := by
  rcases referring_or_madeFrom reads with ⟨_, _, _, _, refers, _⟩ | ⟨_, made⟩
  · rw [Node.subschemas, refers, Option.isSome_some, if_pos rfl] at member
    cases member
  · exact made.of_mem member

/-- Whatever is read on the way to a schema is a schema, and its references are references of
the whole. -/
theorem ofNode_of_reads {inner : Node}
    (below : Relation.ReflTransGen (fun outer inner => inner ∈ outer.subschemas)
      node inner) (reads : ofNode node = .ok schema) :
    ∃ held, ofNode inner = .ok held ∧ held.references ⊆ schema.references := by
  induction below with
  | refl => exact ⟨schema, reads, List.Subset.refl _⟩
  | tail _ member induction =>
      obtain ⟨middle, made, among⟩ := induction
      obtain ⟨held, read, inside⟩ := ofNode_of_mem_subschemas made member
      exact ⟨held, read, List.Subset.trans inside among⟩

/-- Every reference is that of a node which is read on the way to the schema. -/
theorem exists_referring {node : Node} {schema : Schema} {target : String × Location}
    (reads : ofNode node = .ok schema) (member : target ∈ schema.references) :
    ∃ inner at_ pointer,
      Relation.ReflTransGen (fun outer inner => inner ∈ outer.subschemas) node inner ∧
      inner.get? "$ref" = some (.scalar at_ (.string pointer)) ∧
      Reference.read pointer at_ = .ok target.1 ∧ inner.location = target.2 := by
  rcases referring_or_madeFrom reads with
    ⟨at_, pointer, info, name, refers, read, rfl, stands⟩ | ⟨_, schemas, each, composes⟩
  · obtain rfl := List.mem_singleton.mp member
    exact ⟨node, at_, pointer, .refl, refers, read, stands.symm⟩
  · rw [composes.references] at member
    obtain ⟨held, among, within⟩ := List.mem_flatMap.mp member
    obtain ⟨part, below, read⟩ := exists_of_forall₂ each.flip among
    have smaller := Node.sizeOf_subschemas below
    obtain ⟨inner, at_, pointer, later, found⟩ := exists_referring read within
    exact ⟨inner, at_, pointer, .head below later, found⟩
termination_by sizeOf node

end Schema

end Schemata
