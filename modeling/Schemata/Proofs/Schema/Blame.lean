import Schemata.Proofs.Document.Location
import Schemata.Proofs.Outcome
import Schemata.Schema.Reading

namespace Schemata

/-! A node that cannot be read as a schema is blamed on a node of the document. -/

/-- An error is about one of these places, and so is the earlier use of a name. -/
structure CompileError.PointsInto (places : List Location) (error : CompileError) :
    Prop where
  here : ∃ location ∈ places, error.location? = some location
  existing : ∀ {location name existing}, error = .nameCollision location name existing →
    existing ∈ places

def Node.Blamed (document : Node) : CompileError → Prop :=
  CompileError.PointsInto (document.nodes.map (·.location))

namespace Keyword

open Outcome

variable {document node : Node} (within : node ∈ document.nodes)

include within

theorem blamed_malformed (fault : Fault) :
    document.Blamed (.malformed node.location fault) :=
  ⟨⟨node.location, List.mem_map_of_mem within, rfl⟩, nofun⟩

theorem failsWith_malformed {α : Type} (fault : Fault) :
    FailsWith document.Blamed (malformed node.location fault : Except CompileError α) :=
  failsWith_error (blamed_malformed within fault)

theorem failsWith_nullable : FailsWith document.Blamed (nullable node) := by
  rw [nullable]
  split
  · exact failsWith_ok _
  · next flag found =>
    split
    · exact failsWith_ok _
    · exact failsWith_malformed (Node.get?_mem_nodes within found) _

theorem failsWith_add (types : TypeWords) :
    FailsWith document.Blamed (types.add node) := by
  rw [TypeWords.add]
  split
  · exact failsWith_malformed within _
  · exact failsWith_ok _
  · split
    · exact failsWith_malformed within _
    · split <;> exact failsWith_ok _

theorem failsWith_types : FailsWith document.Blamed (types node) := by
  rw [types]
  split
  · exact failsWith_ok _
  · next found => exact failsWith_add (Node.get?_mem_nodes within found) _
  · next found =>
    have listed := Node.get?_mem_nodes within found
    refine (FailsWith.foldlM (fun _ => True) ?_ trivial).1
    intro entry member types _
    exact ⟨failsWith_add (Node.item_mem_nodes listed rfl member) types, fun _ _ => trivial⟩
  · next found => exact failsWith_malformed (Node.get?_mem_nodes within found) _

theorem failsWith_required : FailsWith document.Blamed (required node) := by
  rw [required]
  split
  · exact failsWith_ok _
  · next names found =>
    split
    · exact failsWith_ok _
    · exact failsWith_malformed (Node.get?_mem_nodes within found) _

theorem failsWith_literal : FailsWith document.Blamed (literal node) := by
  rw [literal]
  split
  all_goals first
    | exact failsWith_ok _
    | exact failsWith_malformed within _

omit within in
theorem failsWith_distinctLiterals {items : List Node}
    (inside : ∀ item ∈ items, item ∈ document.nodes) (earlier : List Literal) :
    FailsWith document.Blamed (distinctLiterals earlier items) := by
  induction items generalizing earlier with
  | nil => exact failsWith_ok earlier
  | cons item rest induction =>
      obtain ⟨here, later⟩ := List.forall_mem_cons.mp inside
      rw [distinctLiterals]
      apply (failsWith_literal here).bind
      intro value _
      split
      · refine failsWith_error ⟨⟨item.location, ?_, rfl⟩, nofun⟩
        exact List.mem_map_of_mem here
      · exact induction later _

theorem failsWith_enum : FailsWith document.Blamed (enum node) := by
  rw [enum]
  split
  · exact failsWith_malformed within _
  · exact failsWith_malformed within _
  · next items _ listed =>
    apply failsWith_distinctLiterals
    intro item member
    exact Node.item_mem_nodes within listed member

theorem failsWith_read (pointer : String) :
    FailsWith document.Blamed (Reference.read pointer node.location) := by
  rw [Reference.read]
  split
  · exact failsWith_ok _
  · exact failsWith_error (blamed_malformed within _)

end Keyword

namespace Reading

open Keyword Outcome

/-- The reading is that of a node of the document, and its failures are blamed on nodes of
the document. -/
structure Blaming (document : Node) (reading : Reading) : Prop where
  within : reading.node ∈ document.nodes
  schema : FailsWith document.Blamed reading.schema
  members : ∀ member ∈ reading.members, FailsWith document.Blamed member.2
  entries : ∀ entry ∈ reading.entries, FailsWith document.Blamed entry.2

structure Source.Blaming (document : Node) (source : Source) : Prop where
  within : source.node ∈ document.nodes
  held : ∀ {keyword reading}, source.value? keyword = some reading →
    reading.Blaming document

namespace Source.Blaming

variable {document : Node} {source : Source} (blaming : source.Blaming document)
  (info : SchemaInfo)

include blaming

theorem properties? (required : List String) :
    FailsWith document.Blamed (source.properties? required) := by
  rw [Source.properties?]
  split
  · exact failsWith_ok _
  · next properties found =>
    have reading := blaming.held found
    split
    · exact failsWith_malformed reading.within _
    · apply FailsWith.map
      apply FailsWith.mapM
      intro entry member
      exact (reading.entries entry member).map

theorem propertyless (declared : Bool) :
    FailsWith document.Blamed (source.propertyless info declared) := by
  rw [Source.propertyless]
  split
  · split
    · exact failsWith_ok _
    · exact failsWith_malformed blaming.within _
  · next additional found =>
    have reading := blaming.held found
    have within := reading.within
    split
    · exact failsWith_ok _
    · split
      · exact failsWith_ok _
      · exact failsWith_malformed blaming.within _
    · exact failsWith_ok _
    · exact reading.schema.map
    · next shape =>
      rw [shape] at within
      exact failsWith_malformed within _
    · next shape =>
      rw [shape] at within
      exact failsWith_malformed within _

theorem object : FailsWith document.Blamed (source.object info) := by
  apply (failsWith_required blaming.within).bind
  intro required _
  apply (blaming.properties? required).bind
  intro properties _
  split
  · exact failsWith_ok _
  · exact blaming.propertyless info _

theorem array : FailsWith document.Blamed (source.array info) := by
  rw [Source.array]
  split
  · exact failsWith_malformed blaming.within _
  · next items found =>
    have reading := blaming.held found
    split
    · exact failsWith_malformed reading.within _
    · exact reading.schema.map

theorem primitiveUnion (words : List TypeWord) :
    FailsWith document.Blamed (source.primitiveUnion info words) := by
  rw [Source.primitiveUnion]
  split
  · exact failsWith_malformed blaming.within _
  · exact failsWith_ok _

theorem ofTypes (types : TypeWords) :
    FailsWith document.Blamed (source.ofTypes info types) := by
  rw [Source.ofTypes]
  split
  · split
    · exact failsWith_malformed blaming.within _
    · split
      · exact blaming.object info
      · split
        · exact blaming.array info
        · exact failsWith_malformed blaming.within _
  · exact blaming.object info
  · exact blaming.array info
  · exact failsWith_ok _
  · exact blaming.primitiveUnion info _

theorem ofValues (types : TypeWords) :
    FailsWith document.Blamed (source.ofValues info types) := by
  rw [Source.ofValues]
  split
  · next found =>
    exact (failsWith_enum (blaming.held found).within).map
  · next found =>
    exact (failsWith_literal (blaming.held found).within).map
  · exact blaming.ofTypes info types

omit blaming in
theorem composed {reading : Reading} (reads : reading.Blaming document)
    (keyword : CompositionKeyword) :
    FailsWith document.Blamed (composed keyword reading) := by
  rw [Source.composed]
  split
  · exact failsWith_malformed reads.within _
  · split
    · exact failsWith_malformed reads.within _
    · exact failsWith_ok _

omit blaming in
theorem eq_members_of_composed {keyword : CompositionKeyword} {reading : Reading}
    {members : List (Node × Except CompileError Schema)}
    (listed : Source.composed keyword reading = .ok members) :
    members = reading.members := by
  rw [Source.composed] at listed
  split at listed
  · cases listed
  · split at listed
    · cases listed
    · cases listed
      rfl

omit blaming in
theorem ofAlternatives {reading : Reading} (reads : reading.Blaming document)
    (keyword : CompositionKeyword) :
    FailsWith document.Blamed (ofAlternatives info keyword reading) := by
  apply (composed reads keyword).bind
  intro members listed
  rw [eq_members_of_composed listed]
  refine FailsWith.bind ?_ ?_
  · apply FailsWith.mapM
    intro member among
    exact reads.members member (List.mem_of_mem_filter among)
  · intro variants _
    split
    · exact failsWith_malformed reads.within _
    · exact failsWith_ok _
    · exact failsWith_ok _

omit blaming in
theorem ofAll {reading : Reading} (reads : reading.Blaming document) :
    FailsWith document.Blamed (ofAll info reading) := by
  apply (composed reads .allOf).bind
  intro members listed
  rw [eq_members_of_composed listed]
  split
  · next only single =>
    have here := reads.members (_, only) (by rw [single]; exact List.mem_cons_self)
    exact here.map
  · exact failsWith_malformed reads.within _

theorem schema : FailsWith document.Blamed source.schema := by
  apply (failsWith_nullable blaming.within).bind
  intro nullable _
  dsimp only
  split
  · next reference found =>
    have within := Node.get?_mem_nodes blaming.within found
    split
    · exact failsWith_malformed within _
    · exact (failsWith_read within _).map
  · apply (failsWith_types blaming.within).bind
    intro types _
    split
    · next found => exact ofAlternatives _ (blaming.held found) .oneOf
    · next _ found => exact ofAlternatives _ (blaming.held found) .anyOf
    · next found => exact ofAll _ (blaming.held found)
    · exact blaming.ofValues _ types

end Source.Blaming

theorem blaming_ofNode {document : Node} (node : Node) (within : node ∈ document.nodes) :
    (ofNode node).Blaming document := by
  induction node using Node.inductionOn with
  | scalar location value =>
      have schema := failsWith_malformed within (α := Schema) .schemaNotMapping
      exact ⟨by rwa [node_ofNode], schema, by simp [Node.items?], by simp [Node.entries?]⟩
  | sequence location items induction =>
      have schema := failsWith_malformed within (α := Schema) .schemaNotMapping
      refine ⟨by rwa [node_ofNode], schema, ?_, by simp [Node.entries?]⟩
      intro member among
      rw [members_ofNode] at among
      obtain ⟨item, inside, rfl⟩ := List.mem_map.mp among
      have held := Node.item_mem_nodes within rfl inside
      exact (induction item inside held).schema
  | mapping location entries induction =>
      have each : ∀ entry ∈ entries, (ofNode entry.2).Blaming document := by
        intro entry member
        have held := Node.part_mem_nodes within member
        exact induction entry member held
      refine ⟨by rwa [node_ofNode], ?_, by simp [Node.items?], ?_⟩
      · rw [schema_ofMapping]
        apply Source.Blaming.schema
        refine ⟨within, ?_⟩
        intro keyword reading found
        rw [Source.value?_ofMapping] at found
        obtain ⟨held, looked, rfl⟩ := Option.map_eq_some_iff.mp found
        exact each (keyword, held) (Entries.mem_of_lookup looked)
      · intro entry member
        rw [entries_ofNode] at member
        obtain ⟨inner, among, rfl⟩ := List.mem_map.mp member
        exact (each inner among).schema

end Reading

theorem Schema.failsWith_ofNode {document node : Node} (within : node ∈ document.nodes) :
    Outcome.FailsWith document.Blamed (ofNode node) :=
  (Reading.blaming_ofNode node within).schema

end Schemata
