import Schemata.Proofs.Schema.Subschemas

namespace Schemata

/-! Wrappers, which have no shape but that of the one schema they list. A schema in layers of
wrappers is read as the schema itself, with what the layers say about null and with their
documentation. -/

namespace Node

open Keyword

/-- The keywords that say what a schema describes. -/
def shapeKeywords : List String :=
  ["$ref", "type", "oneOf", "anyOf", "allOf", "enum", "const", "properties",
    "additionalProperties", "items"]

/-- Under `allOf` nothing else is listed, under the other keywords nothing but nulls. -/
def ListsOnly (inner : Node) : CompositionKeyword → List Node → Prop
  | .allOf, items => items = [inner]
  | .oneOf, items | .anyOf, items =>
      ∃ before after, items = before ++ inner :: after ∧
        ∀ other ∈ before ++ after, IsNull other

structure WrapsUnder (keyword : CompositionKeyword) (wrapper inner : Node) : Prop where
  shapeless : ∀ other ∈ shapeKeywords, other ≠ keyword.text → wrapper.get? other = none
  lists : ∃ location items, wrapper.get? keyword.text = some (.sequence location items) ∧
    ListsOnly inner keyword items
  flagged : ∀ flag, wrapper.get? "nullable" = some flag → flag.bool?.isSome

/-- The wrapper's only shape keyword lists the inner node and no other schema. -/
def Wraps (wrapper inner : Node) : Prop :=
  ∃ keyword, WrapsUnder keyword wrapper inner

/-- The node is the core in these layers, the outermost first. -/
inductive Layered (core : Node) : List Node → Node → Prop
  | core : Layered core [] core
  | wrapper {layers : List Node} {wrapper inner : Node} (wraps : wrapper.Wraps inner)
      (within : Layered core layers inner) : Layered core (wrapper :: layers) wrapper

def SaysNullable (node : Node) : Prop :=
  (node.get? "nullable").bind (·.bool?) = some true

def ListsNull (node : Node) : Prop :=
  ∃ keyword : CompositionKeyword, ∃ list, node.get? keyword.text = some list ∧
    ∃ member ∈ list.members, IsNull member

theorem Layered.not_isNull {core node : Node} {layers : List Node}
    (layered : Layered core layers node) (present : ¬IsNull core) : ¬IsNull node := by
  cases layered with
  | core => exact present
  | wrapper wraps =>
      obtain ⟨keyword, under⟩ := wraps
      have untyped := under.shapeless "type" (by decide) (by cases keyword <;> decide)
      rw [IsNull, untyped]
      nofun

section

variable {keyword : CompositionKeyword} {wrapper inner : Node}
  (wraps : WrapsUnder keyword wrapper inner)

include wraps

theorem WrapsUnder.exists_flag :
    ∃ flag, nullable wrapper = .ok flag ∧ (flag = true ↔ wrapper.SaysNullable) := by
  rw [nullable, SaysNullable]
  cases found : wrapper.get? "nullable" with
  | none => exact ⟨false, rfl, by simp⟩
  | some flag =>
      obtain ⟨value, held⟩ := Option.isSome_iff_exists.mp (wraps.flagged flag found)
      refine ⟨value, ?_, ?_⟩
      · simp only [held]
      · rw [Option.bind_some, held, Option.some_inj]

theorem listsNull_iff {location : Location} {items : List Node}
    (listed : wrapper.get? keyword.text = some (.sequence location items)) :
    wrapper.ListsNull ↔ ∃ member ∈ items, IsNull member := by
  constructor
  · rintro ⟨other, list, found, null⟩
    by_cases same : other.text = keyword.text
    · rw [same] at found
      cases listed.symm.trans found
      exact null
    · have absent := wraps.shapeless other.text (by cases other <;> decide) same
      cases absent.symm.trans found
  · intro null
    exact ⟨keyword, _, listed, null⟩

end

end Node

namespace Reading.Source

open Keyword Outcome

variable {info : SchemaInfo} {keyword : CompositionKeyword} {location : Location}
  {items : List Node} {inner : Node}

theorem composed_sequence (some_ : items ≠ []) :
    composed keyword (ofNode (.sequence location items)) =
      .ok (items.map fun item => (item, Schema.ofNode item)) := by
  rw [composed, node_ofNode, members_ofNode]
  simp only [Node.items?, Option.isNone_some, Option.getD_some, List.isEmpty_map,
    Bool.false_eq_true, if_false, List.isEmpty_iff, some_]
  rfl

theorem ofAll_single :
    ofAll info (ofNode (.sequence location [inner])) = do
      return (← Schema.ofNode inner).wrappedBy info.docs info.nullable := by
  rw [ofAll, composed_sequence (List.cons_ne_nil _ _)]
  rfl

theorem ofAlternatives_single {before after : List Node}
    (nulls : ∀ other ∈ before ++ after, IsNull other) (present : ¬IsNull inner) :
    ofAlternatives info keyword (ofNode (.sequence location (before ++ inner :: after))) = do
      return (← Schema.ofNode inner).wrappedBy info.docs
        (info.nullable || (before ++ inner :: after).any (decide <| IsNull ·)) := by
  obtain ⟨left, right⟩ := List.forall_mem_append.mp nulls
  have others : (before ++ inner :: after).filter (¬IsNull ·) = [inner] := by
    rw [List.filter_append, List.filter_cons_of_pos (by simpa using present),
      List.filter_eq_nil_iff.mpr (by simpa using left),
      List.filter_eq_nil_iff.mpr (by simpa using right), List.nil_append]
  have variants : (((before ++ inner :: after).map fun item =>
      (item, Schema.ofNode item)).filter (¬IsNull ·.1)).mapM (·.2) =
        (Schema.ofNode inner).map ([·]) := by
    rw [List.filter_map, Function.comp_def, others, List.map_singleton, List.mapM_cons,
      List.mapM_nil]
    cases Schema.ofNode inner <;> rfl
  rw [ofAlternatives, composed_sequence (by simp)]
  change (List.mapM (m := Except CompileError) _ (List.filter _ (List.map _ _)) >>= _) = _
  rw [variants, List.any_map, Function.comp_def]
  cases Schema.ofNode inner <;> rfl

/-- A mapping with a composition as its only shape keyword. -/
def ofComposition (info : SchemaInfo) : CompositionKeyword → Reading → Except CompileError Schema
  | .allOf => ofAll info
  | .oneOf => ofAlternatives info .oneOf
  | .anyOf => ofAlternatives info .anyOf

theorem schema_eq_ofComposition {entries : List (String × Node)} {list : Node} {flag : Bool}
    (reads : nullable (.mapping location entries) = .ok flag)
    (shapeless : ∀ other ∈ Node.shapeKeywords, other ≠ keyword.text →
      (Node.mapping location entries).get? other = none)
    (found : (Node.mapping location entries).get? keyword.text = some list) :
    (ofMapping location entries).schema =
      ofComposition ⟨flag, docs (.mapping location entries), location⟩ keyword
        (ofNode list) := by
  have unreferring := shapeless "$ref" (by decide) (by cases keyword <;> decide)
  have untyped := shapeless "type" (by decide) (by cases keyword <;> decide)
  have typed : types (.mapping location entries) = .ok ⟨[], false⟩ := by
    rw [types, untyped]
  have here : (ofMapping location entries).node = .mapping location entries := rfl
  calc (ofMapping location entries).schema
      = ofComposition ⟨flag || false, docs (.mapping location entries), location⟩ keyword
          (ofNode list) := by
        rw [Source.schema, here, reads, unreferring, typed, value?_eq, value?_eq, value?_eq]
        cases keyword with
        | oneOf =>
            rw [CompositionKeyword.text] at found
            rw [found]
            rfl
        | anyOf =>
            rw [CompositionKeyword.text] at found
            rw [found, shapeless "oneOf" (by decide) (by decide)]
            rfl
        | allOf =>
            rw [CompositionKeyword.text] at found
            rw [found, shapeless "oneOf" (by decide) (by decide),
              shapeless "anyOf" (by decide) (by decide)]
            rfl
    _ = _ := by rw [Bool.or_false]

/-- What is listed alone takes the place of the composition. -/
theorem ofComposition_single (only : Node.ListsOnly inner keyword items)
    (present : ¬IsNull inner) :
    ofComposition info keyword (ofNode (.sequence location items)) = do
      return (← Schema.ofNode inner).wrappedBy info.docs
        (info.nullable || items.any (decide <| IsNull ·)) := by
  cases keyword with
  | oneOf | anyOf =>
      obtain ⟨before, after, rfl, nulls⟩ := only
      exact ofAlternatives_single nulls present
  | allOf =>
      obtain rfl : items = [inner] := only
      rw [List.any_cons, List.any_nil, decide_eq_false present, Bool.or_false, Bool.or_false]
      exact ofAll_single

end Reading.Source

namespace Schema

open Outcome

/-- A schema and what it is read as in the layers. Documentation is taken from the outermost
layer that has it. -/
structure Collapsed (layers : List Node) (schema whole : Schema) : Prop where
  shape : whole.withInfo schema.info = schema
  location : whole.location = schema.location
  nullable : whole.nullable = true ↔
    schema.nullable = true ∨ ∃ layer ∈ layers, layer.SaysNullable ∨ layer.ListsNull
  description : whole.docs.description =
    (layers.findSome? fun layer => (Keyword.docs layer).description).or
      schema.docs.description
  sample : whole.docs.sample =
    (layers.findSome? fun layer => (Keyword.docs layer).sample).or schema.docs.sample
  format : whole.docs.format =
    (layers.findSome? fun layer => (Keyword.docs layer).format).or schema.docs.format

theorem collapsed_core (schema : Schema) : Collapsed [] schema schema where
  shape := withInfo_info schema
  location := rfl
  nullable := by simp
  description := rfl
  sample := rfl
  format := rfl

private theorem or_of_layers {α : Type} (read : Node → Option α) (layer : Node)
    (layers : List Node) (last : Option α) :
    (read layer).or ((layers.findSome? read).or last) =
      ((layer :: layers).findSome? read).or last := by
  rw [← List.singleton_append, List.findSome?_append, List.findSome?_singleton,
    Option.or_assoc]

theorem Collapsed.wrapper {layers : List Node} {schema inner : Schema} {layer : Node}
    {nullable : Bool} (collapsed : Collapsed layers schema inner)
    (allows : nullable = true ↔ layer.SaysNullable ∨ layer.ListsNull) :
    Collapsed (layer :: layers) schema
      (inner.wrappedBy (Keyword.docs layer) nullable) where
  shape := by
    rw [withInfo_wrappedBy]
    exact collapsed.shape
  location := by
    rw [location_wrappedBy]
    exact collapsed.location
  nullable := by
    rw [nullable_wrappedBy, Bool.or_eq_true, collapsed.nullable, allows, or_assoc,
      or_comm (a := Exists _)]
    simp only [List.mem_cons, exists_eq_or_imp]
  description := by
    rw [docs_wrappedBy, Docs.orElse, collapsed.description]
    exact or_of_layers (fun layer => (Keyword.docs layer).description) layer layers _
  sample := by
    rw [docs_wrappedBy, Docs.orElse, collapsed.sample]
    exact or_of_layers (fun layer => (Keyword.docs layer).sample) layer layers _
  format := by
    rw [docs_wrappedBy, Docs.orElse, collapsed.format]
    exact or_of_layers (fun layer => (Keyword.docs layer).format) layer layers _

/-- One wrapper: it is read as what it wraps, with what it says itself. -/
theorem ofNode_of_wraps {wrapper inner : Node} (wraps : wrapper.Wraps inner)
    (present : ¬Keyword.IsNull inner) :
    ∃ nullable : Bool, (nullable = true ↔ wrapper.SaysNullable ∨ wrapper.ListsNull) ∧
      ofNode wrapper = do return (← ofNode inner).wrappedBy (Keyword.docs wrapper) nullable := by
  obtain ⟨keyword, under⟩ := wraps
  obtain ⟨list, items, listed, only⟩ := under.lists
  obtain ⟨location, entries, rfl⟩ : ∃ location entries, wrapper = .mapping location entries := by
    cases wrapper with
    | scalar | sequence => cases listed
    | mapping location entries => exact ⟨location, entries, rfl⟩
  obtain ⟨flag, reads, flagged⟩ := under.exists_flag
  refine ⟨flag || items.any (decide <| Keyword.IsNull ·), ?_, ?_⟩
  · rw [Bool.or_eq_true, flagged, Node.listsNull_iff under listed, List.any_eq_true]
    simp only [decide_eq_true_eq]
  · rw [ofNode, Reading.schema_ofMapping,
      Reading.Source.schema_eq_ofComposition reads under.shapeless listed,
      Reading.Source.ofComposition_single only present]

/-- A schema in any layers of wrappers fails with the error of the schema alone, or is read as
the schema, collapsed with the layers. -/
theorem wrappers_collapse {core outermost : Node} {layers : List Node}
    (layered : Node.Layered core layers outermost) (present : ¬Keyword.IsNull core) :
    Agree (Collapsed layers) (ofNode core) (ofNode outermost) := by
  induction layered with
  | core =>
      cases ofNode core with
      | error error => exact .error error
      | ok schema => exact .ok (collapsed_core schema)
  | @wrapper layers wrapper inner wraps within induction =>
      obtain ⟨nullable, allows, reads⟩ := ofNode_of_wraps wraps (within.not_isNull present)
      rw [reads, ← bind_pure (ofNode core)]
      exact induction.bind fun schema inner collapsed => .ok (collapsed.wrapper allows)

end Schema

/-! A count in two layers. -/

namespace Node

def count : Node :=
  .mapping ⟨["anyOf", "1", "allOf", "0"]⟩
    [("type", .scalar ⟨["anyOf", "1", "allOf", "0", "type"]⟩ (.string "integer")),
      ("description", .scalar ⟨["anyOf", "1", "allOf", "0", "description"]⟩ (.string "A count")),
      ("format", .scalar ⟨["anyOf", "1", "allOf", "0", "format"]⟩ (.string "int32"))]

def wrappedCount : Node :=
  .mapping ⟨["anyOf", "1"]⟩
    [("allOf", .sequence ⟨["anyOf", "1", "allOf"]⟩ [count]),
      ("nullable", .scalar ⟨["anyOf", "1", "nullable"]⟩ (.bool false))]

def nullableCount : Node :=
  .mapping ⟨[]⟩
    [("description", .scalar ⟨["description"]⟩ (.string "Perhaps a count")),
      ("anyOf", .sequence ⟨["anyOf"]⟩
        [.mapping ⟨["anyOf", "0"]⟩ [("type", .scalar ⟨["anyOf", "0", "type"]⟩ (.string "null"))],
          wrappedCount])]

theorem wraps_nullableCount : nullableCount.Wraps wrappedCount := by
  refine ⟨.anyOf, ?_, ⟨_, _, rfl, [_], [], rfl, ?_⟩, nofun⟩
  · simp [shapeKeywords, nullableCount, get?, entries?, CompositionKeyword.text]
  · simp [Keyword.IsNull, get?, entries?, string?]

theorem wraps_wrappedCount : wrappedCount.Wraps count := by
  refine ⟨.allOf, ?_, ⟨_, _, rfl, rfl⟩, ?_⟩
  · simp [shapeKeywords, wrappedCount, get?, entries?, CompositionKeyword.text]
  · rintro _ ⟨⟩
    rfl

end Node

theorem Schema.wrappers_collapse_count :
    Node.Layered Node.count [Node.nullableCount, Node.wrappedCount] Node.nullableCount ∧
    ¬Keyword.IsNull Node.count ∧
    ∃ schema whole, Schema.ofNode Node.count = .ok schema ∧
      Schema.ofNode Node.nullableCount = .ok whole ∧
      Schema.Collapsed [Node.nullableCount, Node.wrappedCount] schema whole ∧
      whole.docs.description = some "Perhaps a count" ∧ whole.docs.format = some "int32" := by
  have layered : Node.Layered Node.count [Node.nullableCount, Node.wrappedCount]
      Node.nullableCount := .wrapper Node.wraps_nullableCount
        (.wrapper Node.wraps_wrappedCount .core)
  have present : ¬Keyword.IsNull Node.count := by decide
  refine ⟨layered, present, ?_⟩
  have agree := wrappers_collapse layered present
  have reads : ofNode Node.count =
      .ok (.primitive ⟨false, ⟨some "A count", none, some "int32"⟩,
        ⟨["anyOf", "1", "allOf", "0"]⟩⟩ .integer) := rfl
  generalize ofNode Node.nullableCount = outcome at agree
  rw [reads] at agree ⊢
  cases agree with
  | ok collapsed =>
      exact ⟨_, _, rfl, rfl, collapsed, collapsed.description, collapsed.format⟩

end Schemata
