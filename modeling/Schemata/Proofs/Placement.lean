import Schemata.Proofs.Designation
import Schemata.Proofs.Resolution.Blame
import Schemata.Proofs.Schema.Place

namespace Schemata

/-! Every location that a compilation reports is that of a node of the document, and
declarations have different ones. -/

theorem CompileError.PointsInto.mono {places others : List Location} {error : CompileError}
    (points : error.PointsInto places) (subset : places ⊆ others) :
    error.PointsInto others := by
  obtain ⟨⟨location, member, stands⟩, existing⟩ := points
  exact ⟨⟨location, subset member, stands⟩, fun same => subset (existing same)⟩

theorem Node.nodes_of_below? {node held : Node} {keys : List String}
    (found : node.below? keys = some held) : held.nodes.Sublist node.nodes := by
  induction keys generalizing node with
  | nil =>
      cases found
      exact List.Sublist.refl _
  | cons key rest induction =>
      obtain ⟨middle, here, later⟩ := Option.bind_eq_some_iff.mp found
      exact (induction later).trans ((get?_sublist here).trans node.inside_sublist)

namespace Document

/-- All nodes that are read as schemas, those of one declared schema after the other. -/
def schemaNodes (document : Node) : List Node :=
  (((Forest.section? document).bind Node.entries?).getD []).flatMap fun entry =>
    entry.2.schemaNodes

theorem readsAsSchema_of_mem {document node : Node} (member : node ∈ schemaNodes document) :
    ReadsAsSchema document node := by
  obtain ⟨entry, among, inside⟩ := List.mem_flatMap.mp member
  cases found : (Forest.section? document).bind Node.entries? with
  | none => rw [found] at among; cases among
  | some entries =>
      rw [found] at among
      obtain ⟨declared, located, held⟩ := Option.bind_eq_some_iff.mp found
      exact ⟨declared, entries, entry, located, held, among,
        Node.reads_of_mem_schemaNodes inside⟩

theorem section_sublist {document declared : Node}
    (located : Forest.section? document = some declared) :
    declared.nodes.Sublist document.nodes := by
  rw [Forest.section?_eq_below?] at located
  obtain ⟨section_, _, found⟩ := Option.bind_eq_some_iff.mp located
  exact Node.nodes_of_below? found

theorem schemaNodes_sublist (document : Node) :
    (schemaNodes document).Sublist document.nodes := by
  rw [schemaNodes]
  cases located : Forest.section? document with
  | none => exact List.nil_sublist _
  | some declared =>
      apply List.Sublist.trans ?_ (section_sublist located)
      apply List.Sublist.trans ?_ declared.inside_sublist
      cases declared with
      | scalar | sequence => exact List.nil_sublist _
      | mapping _ entries =>
          apply List.Sublist.flatMap_right
          intro entry _
          exact entry.2.schemaNodes_sublist

end Document

namespace Forest

open Outcome

variable {document : Node} {forest : Forest} {model : Model}

theorem failsWith_ofDocument (document : Node) :
    FailsWith document.Blamed (ofDocument document) := by
  rw [ofDocument]
  split
  · exact Keyword.failsWith_malformed document.mem_nodes_self _
  · split
    · exact failsWith_ok _
    · next declared located =>
      have within := Document.section_sublist located
      split
      · exact Keyword.failsWith_malformed (within.subset declared.mem_nodes_self) _
      · next entries held =>
        apply FailsWith.map
        apply FailsWith.mapM
        intro entry member
        apply FailsWith.map
        apply Schema.failsWith_ofNode
        cases declared with
        | scalar | sequence => cases held
        | mapping =>
            cases held
            exact Node.part_mem_nodes (within.subset (Node.mem_nodes_self _)) member

theorem roots_of_no_section (builds : ofDocument document = .ok forest)
    (missing : Forest.section? document = none) : forest.roots = [] := by
  rw [ofDocument] at builds
  split at builds
  · cases builds
  · rw [missing] at builds
    cases builds
    rfl

theorem places_sublist (distinct : document.KeysDistinct)
    (builds : ofDocument document = .ok forest) :
    forest.places.Sublist ((Document.schemaNodes document).map (·.location)) := by
  rw [places, Document.schemaNodes, List.map_flatMap]
  cases located : Forest.section? document with
  | none =>
      rw [roots_of_no_section builds located]
      exact List.nil_sublist _
  | some declared =>
      obtain ⟨entries, held⟩ := entries_of_ofDocument builds located
      obtain ⟨_, each⟩ := roots_of_ofDocument distinct builds located held
      rw [Option.bind_some, held]
      apply Schema.flatMap_sublist each
      intro entry _ root read
      exact Schema.places_sublist read.2

theorem locations_sublist (resolves : forest.resolve = .ok model) :
    (model.declarations.map (·.location)).Sublist forest.places := by
  obtain ⟨assignment, resolved⟩ := Resolution.resolved_of_ok resolves
  rw [resolved.blocks, places, List.map_flatMap]
  apply List.Sublist.flatMap_right
  intro root _
  rw [Resolution.block_eq, List.map_append, List.map_map]
  exact (Resolution.shape_places ⟨root.1, []⟩ root.2).append_right _

theorem ofNode_of_mem_schemaNodes {node : Node} (distinct : document.KeysDistinct)
    (builds : ofDocument document = .ok forest)
    (member : node ∈ Document.schemaNodes document) :
    ∃ schema, Schema.ofNode node = .ok schema := by
  obtain ⟨declared, entries, entry, located, held, among, below⟩ :=
    Document.readsAsSchema_of_mem member
  obtain ⟨_, each⟩ := roots_of_ofDocument distinct builds located held
  obtain ⟨root, _, _, read⟩ := exists_of_forall₂ each among
  obtain ⟨schema, made, _⟩ := Schema.ofNode_of_reads below read
  exact ⟨schema, made⟩

end Forest

theorem failsWith_compile {document : Node} (loaded : Document.Loaded document) :
    Outcome.FailsWith document.Blamed (compile document) := by
  apply (Forest.failsWith_ofDocument document).bind
  intro forest builds error failed
  apply (forest.failsWith_resolve error failed).mono
  intro location member
  have inside := (Forest.places_sublist loaded.keysDistinct builds).subset member
  exact ((Document.schemaNodes_sublist document).map _).subset inside

/-- An error is about nodes of the document. A declaration stands at a mapping that was
read as a schema, and no two stand at the same one. -/
theorem reported_locations_stand {document : Node} (loaded : Document.Loaded document) :
    (∀ error, compile document = .error error →
      (∃ node ∈ document.nodes, error.location? = some node.location) ∧
      ∀ location name existing, error = .nameCollision location name existing →
        ∃ node ∈ document.nodes, node.location = existing) ∧
    ∀ model, compile document = .ok model →
      (∀ declaration ∈ model.declarations, ∃ node ∈ document.nodes,
        node.location = declaration.location ∧ node.entries?.isSome ∧
        Document.ReadsAsSchema document node ∧
        ∃ schema, Schema.ofNode node = .ok schema) ∧
      (model.declarations.map (·.location.text)).Nodup := by
  constructor
  · intro error failed
    obtain ⟨⟨_, member, stands⟩, existing⟩ := failsWith_compile loaded error failed
    obtain ⟨node, inside, rfl⟩ := List.mem_map.mp member
    refine ⟨⟨node, inside, stands⟩, ?_⟩
    intro _ _ _ collision
    exact List.mem_map.mp (existing collision)
  · intro model compiles
    obtain ⟨forest, builds, resolves⟩ := Outcome.bind_eq_ok_iff.mp compiles
    have placed := (Forest.locations_sublist resolves).trans
      (Forest.places_sublist loaded.keysDistinct builds)
    have inside := Document.schemaNodes_sublist document
    constructor
    · intro declaration member
      obtain ⟨node, read, stands⟩ :=
        List.mem_map.mp (placed.subset (List.mem_map_of_mem member))
      obtain ⟨schema, made⟩ :=
        Forest.ofNode_of_mem_schemaNodes loaded.keysDistinct builds read
      have mapping : node.entries?.isSome := by
        obtain ⟨_, _, rfl⟩ := Schema.mapping_of_ofNode made
        rfl
      exact ⟨node, inside.subset read, stands, mapping,
        Document.readsAsSchema_of_mem read, schema, made⟩
    · have distinct := loaded.located.nodup_locations.sublist (placed.trans (inside.map _))
      have texts := distinct.map Location.text_injective
      rwa [List.map_map] at texts

namespace Document

/-- The wrapper around a list of types has no declaration, and the types have none. -/
def wrapped : Node :=
  .mapping ⟨[]⟩ [("$defs", .mapping ⟨["$defs"]⟩ [("Pet", .mapping ⟨["$defs", "Pet"]⟩
    [("oneOf", .sequence ⟨["$defs", "Pet", "oneOf"]⟩
      [.mapping ⟨["$defs", "Pet", "oneOf", "0"]⟩
        [("type", .sequence ⟨["$defs", "Pet", "oneOf", "0", "type"]⟩
          [.scalar ⟨["$defs", "Pet", "oneOf", "0", "type", "0"]⟩ (.string "string"),
            .scalar ⟨["$defs", "Pet", "oneOf", "0", "type", "1"]⟩ (.string "integer")])]])])])]

theorem loaded_wrapped : Loaded wrapped := by
  refine ⟨"\x7b\"$defs\":\x7b\"Pet\":\x7b\"oneOf\":[\x7b\"type\":[\"string\",\"integer\"]\x7d]\x7d\x7d\x7d", .inl ?_⟩
  decide +kernel

/-- Two keys with one type name. -/
def namesakes : Node :=
  .mapping ⟨[]⟩ [("$defs", .mapping ⟨["$defs"]⟩
    [("a/b", typeNode ⟨["$defs", "a/b"]⟩), ("a b", typeNode ⟨["$defs", "a b"]⟩)])]

theorem loaded_namesakes : Loaded namesakes := by
  refine ⟨"\x7b\"$defs\":\x7b\"a/b\":\x7b\"type\":\"string\"\x7d,\"a b\":\x7b\"type\":\"string\"\x7d\x7d\x7d", .inl ?_⟩
  decide +kernel

end Document

theorem reported_locations_stand_samples :
    (∃ model, compile Document.wrapped = .ok model ∧
      model.declarations.map (·.location.text) = ["#/$defs/Pet/oneOf/0"] ∧
      (∀ declaration ∈ model.declarations, ∃ node ∈ Document.wrapped.nodes,
        node.location = declaration.location ∧ node.entries?.isSome ∧
        Document.ReadsAsSchema Document.wrapped node ∧
        ∃ schema, Schema.ofNode node = .ok schema) ∧
      (model.declarations.map (·.location.text)).Nodup) ∧
    ∃ error, compile Document.namesakes = .error error ∧
      (∃ node ∈ Document.namesakes.nodes, error.location? = some node.location) ∧
      ∃ existing ∈ Document.namesakes.nodes, existing.location.text = "#/$defs/a~1b" := by
  constructor
  · have computed : (compile Document.wrapped).toOption.map
        (fun model => model.declarations.map (·.location.text)) =
          some ["#/$defs/Pet/oneOf/0"] := by decide +kernel
    cases compiles : compile Document.wrapped with
    | error => rw [compiles] at computed; cases computed
    | ok model =>
        rw [compiles] at computed
        have stands := (reported_locations_stand Document.loaded_wrapped).2 model compiles
        exact ⟨model, rfl, Option.some.inj computed, stands⟩
  · have fails : compile Document.namesakes = .error (.nameCollision
        ⟨["$defs", "a b"]⟩ "AB" ⟨["$defs", "a/b"]⟩) := by
      rfl
    obtain ⟨here, existing⟩ :=
      (reported_locations_stand Document.loaded_namesakes).1 _ fails
    obtain ⟨node, member, stands⟩ := existing _ _ _ rfl
    exact ⟨_, fails, here, node, member, by rw [stands]; decide⟩

end Schemata
