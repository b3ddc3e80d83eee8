import Schemata.Proofs.Resolution.Mention
import Schemata.Proofs.Resolution.Resolver

namespace Schemata

/-! What a successful resolution rests on: a complete assignment of names, references
to roots only, and the declarations of one root after those of another. -/

/-- Every reference, at any depth, names a root. -/
def Forest.ReferencesDeclared (forest : Forest) : Prop :=
  ∀ root ∈ forest.roots, ∀ info target,
    .reference info target ∈ root.2.nodes → target ∈ forest.roots.map Prod.fst

namespace Resolution

structure Resolved (forest : Forest) (assignment : Assignment) (model : Model) :
    Prop where
  named : Named forest assignment
  references : forest.ReferencesDeclared
  declarations_eq : declarations forest = .ok model.declarations
  blocks : model.declarations =
    forest.roots.flatMap fun root => block assignment.nameOf root.1 root.2

/-- The declarations depend on the names that are given only. -/
theorem Resolved.blocks_of_follows {forest : Forest} {assignment : Assignment}
    {model : Model} {rule : Position → String}
    (resolved : Resolved forest assignment model)
    (follows : Assignment.Follows rule assignment.names) :
    model.declarations =
      forest.roots.flatMap fun root => block rule root.1 root.2 := by
  refine resolved.blocks.trans (List.flatMap_congr fun root declared => ?_)
  refine block_congr fun node member => ?_
  exact follows _ (resolved.named.mem_names (mem_positions_of_named declared member))

theorem reference_mem_rootStops {forest : Forest} {root : String × Schema}
    {info : SchemaInfo} {target : String}
    (member : .reference info target ∈ root.2.nodes) :
    .reference target info.location ∈ rootStops forest root.1 root.2 := by
  refine definitionStops_subset_rootStops root.2 ?_
  rw [← mem_referencesOf, referencesOf_definitionStops, Schema.mem_references]
  exact ⟨info, member, rfl⟩

theorem referencesDeclared_of_clean {forest : Forest}
    (clean : ∀ error, .error error ∉ promotions forest) :
    forest.ReferencesDeclared := by
  intro root declared info target member
  have faultless := faultless_of_clean clean declared _
    (reference_mem_rootStops member)
  by_contra missing
  rw [Stop.fault?, Entries.lookup_eq_none_iff.mpr missing] at faultless
  cases faultless

theorem resolve_of_assigned {forest : Forest} {assignment : Assignment}
    (assigned : Assignment.ofForest forest = .ok assignment) :
    ∃ model, forest.resolve = .ok model ∧ Resolved forest assignment model := by
  obtain ⟨_, _, promotes⟩ := Assignment.ofForest_eq_ok_iff.mp assigned
  have declares : declarations forest = .ok (forest.roots.flatMap fun root =>
      block assignment.nameOf root.1 root.2) := by
    rw [declarations_eq, assigned]
    rfl
  have named := named_of_ofForest assigned
  have distinct := named.nodup_names
  rw [← map_name_blocks] at distinct
  have kept := Model.declarations_ofDeclarations distinct
  exact ⟨_, Outcome.bind_eq_ok_iff.mpr ⟨_, declares, rfl⟩, named,
    referencesDeclared_of_clean (Assignment.clean_of_promoteAll promotes),
    declares.trans (congrArg Except.ok kept.symm), kept⟩

theorem assigned_of_ok {forest : Forest} {model : Model}
    (succeeds : forest.resolve = .ok model) :
    ∃ assignment, Assignment.ofForest forest = .ok assignment ∧
      Resolved forest assignment model := by
  obtain ⟨_, declares, _⟩ := Outcome.bind_eq_ok_iff.mp succeeds
  rw [declarations_eq] at declares
  obtain ⟨assignment, assigned, _⟩ := Outcome.bind_eq_ok_iff.mp declares
  obtain ⟨same, resolves, resolved⟩ := resolve_of_assigned assigned
  cases succeeds.symm.trans resolves
  exact ⟨assignment, assigned, resolved⟩

theorem unassigned_of_error {forest : Forest} {error : CompileError}
    (failed : forest.resolve = .error error) :
    Assignment.ofForest forest = .error error := by
  cases assigned : Assignment.ofForest forest with
  | error other =>
      rw [Forest.resolve, declarations_eq, assigned] at failed
      exact congrArg Except.error (Except.error.inj failed)
  | ok assignment =>
      obtain ⟨_, resolves, _⟩ := resolve_of_assigned assigned
      cases failed.symm.trans resolves

theorem resolved_of_ok {forest : Forest} {model : Model}
    (succeeds : forest.resolve = .ok model) :
    ∃ assignment, Resolved forest assignment model := by
  obtain ⟨assignment, -, resolved⟩ := assigned_of_ok succeeds
  exact ⟨assignment, resolved⟩

namespace Resolved

variable {forest : Forest} {assignment : Assignment} {model : Model}

theorem shape_or_root (resolved : Resolved forest assignment model)
    {declaration : Declaration} (member : declaration ∈ model.declarations) :
    ∃ root ∈ forest.roots,
      (∃ shape ∈ shapesWithin ⟨root.1, []⟩ root.2,
        declaration = shapeDeclaration assignment.nameOf shape) ∨
      declaration = rootDeclaration assignment.nameOf root := by
  rw [resolved.blocks] at member
  obtain ⟨root, declared, inside⟩ := List.mem_flatMap.mp member
  rw [block_eq] at inside
  refine ⟨root, declared, ?_⟩
  rcases List.mem_append.mp inside with shape | own
  · obtain ⟨node, within, rfl⟩ := List.mem_map.mp shape
    exact .inl ⟨node, within, rfl⟩
  · exact .inr (List.mem_singleton.mp own)

theorem node_of_mem (resolved : Resolved forest assignment model)
    {declaration : Declaration} (member : declaration ∈ model.declarations) :
    ∃ root ∈ forest.roots, ∃ node ∈ namedNodes root,
      declaration.name = assignment.nameOf node.1 ∧
      declaration.definition =
        (definitionOf assignment.nameOf node.1 node.2).result := by
  obtain ⟨root, declared, ⟨shape, within, rfl⟩ | rfl⟩ :=
    resolved.shape_or_root member
  · exact ⟨root, declared, shape, List.mem_append_left _ within, rfl, rfl⟩
  · exact ⟨root, declared, (⟨root.1, []⟩, root.2),
      List.mem_append_right _ List.mem_cons_self, rfl, rfl⟩

theorem mem_of_shape (resolved : Resolved forest assignment model)
    {root : String × Schema} (declared : root ∈ forest.roots)
    {shape : Position × Schema} (within : shape ∈ shapesWithin ⟨root.1, []⟩ root.2) :
    shapeDeclaration assignment.nameOf shape ∈ model.declarations := by
  rw [resolved.blocks]
  refine List.mem_flatMap.mpr ⟨root, declared, ?_⟩
  rw [block_eq]
  exact List.mem_append_left _ (List.mem_map.mpr ⟨shape, within, rfl⟩)

theorem mem_of_root (resolved : Resolved forest assignment model)
    {root : String × Schema} (declared : root ∈ forest.roots) :
    rootDeclaration assignment.nameOf root ∈ model.declarations := by
  rw [resolved.blocks]
  refine List.mem_flatMap.mpr ⟨root, declared, ?_⟩
  rw [block_eq]
  exact List.mem_append_right _ List.mem_cons_self

theorem mention_mem_positions (resolved : Resolved forest assignment model)
    {root : String × Schema} (declared : root ∈ forest.roots)
    {node : Position × Schema} (member : node ∈ namedNodes root)
    {position : Position} (mentioned : position ∈ mentionsOf node) :
    position ∈ positions forest := by
  have among := (perm_mentions_namedNodes root).mem_iff.mp
    (List.mem_flatMap.mpr ⟨node, member, mentioned⟩)
  rcases List.mem_append.mp among with shape | referred
  · obtain ⟨inner, within, rfl⟩ := List.mem_map.mp shape
    exact mem_positions_of_named declared (List.mem_append_left _ within)
  · obtain ⟨⟨target, location⟩, reference, rfl⟩ := List.mem_map.mp referred
    obtain ⟨info, found, _⟩ := Schema.mem_references.mp reference
    exact root_mem_positions (resolved.references root declared info target found)

theorem writesRoots (resolved : Resolved forest assignment model)
    {root : String × Schema} (declared : root ∈ forest.roots)
    {node : Position × Schema} (member : node ∈ namedNodes root) :
    WritesRoots assignment.nameOf (mentionsOf node) := by
  intro target mentioned
  have position := resolved.mention_mem_positions declared member mentioned
  exact resolved.named.nameOf_root (root_of_mem_positions position)

theorem names_eq (resolved : Resolved forest assignment model)
    {root : String × Schema} (declared : root ∈ forest.roots)
    {node : Position × Schema} (member : node ∈ namedNodes root) :
    (definitionOf assignment.nameOf node.1 node.2).result.names =
      (mentionsOf node).map assignment.nameOf :=
  names_definitionOf _ _ (resolved.writesRoots declared member)

theorem mem_of_named (resolved : Resolved forest assignment model)
    {root : String × Schema} (declared : root ∈ forest.roots)
    {node : Position × Schema} (member : node ∈ namedNodes root) :
    ∃ declaration ∈ model.declarations,
      declaration.name = assignment.nameOf node.1 ∧
      declaration.definition =
        (definitionOf assignment.nameOf node.1 node.2).result := by
  rcases List.mem_append.mp member with within | own
  · exact ⟨_, resolved.mem_of_shape declared within, rfl, rfl⟩
  · rw [List.mem_singleton.mp own]
    exact ⟨_, resolved.mem_of_root declared, rfl, rfl⟩

/-- A reference is written as the name of the root that it names. -/
theorem reference_written (resolved : Resolved forest assignment model)
    {root : String × Schema} (declared : root ∈ forest.roots)
    {info : SchemaInfo} {target : String}
    (member : .reference info target ∈ root.2.nodes) :
    ∃ declaration ∈ model.declarations,
      typeName target ∈ declaration.definition.names := by
  have among : ⟨target, []⟩ ∈ (namedNodes root).flatMap mentionsOf := by
    refine (perm_mentions_namedNodes root).mem_iff.mpr (List.mem_append_right _ ?_)
    exact List.mem_map.mpr
      ⟨(target, info.location), Schema.mem_references.mpr ⟨info, member, rfl⟩, rfl⟩
  obtain ⟨node, inside, mentioned⟩ := List.mem_flatMap.mp among
  obtain ⟨declaration, kept, -, definition⟩ := resolved.mem_of_named declared inside
  refine ⟨declaration, kept, ?_⟩
  rw [definition, resolved.names_eq declared inside]
  exact List.mem_map.mpr
    ⟨_, mentioned, resolved.writesRoots declared inside target mentioned⟩

end Resolved

end Resolution

theorem Forest.exists_model_of_read {forest : Forest} {α : Type} {read : Model → α}
    {value : α} (computed : forest.resolve.toOption.map read = some value) :
    ∃ model, forest.resolve = .ok model ∧ read model = value := by
  cases result : forest.resolve with
  | error => rw [result] at computed; cases computed
  | ok model => rw [result] at computed; exact ⟨model, rfl, Option.some.inj computed⟩

/-- Two declared cycles, nested shapes, a name in use and null in every place that can
carry it. -/
def Forest.shelter : Forest where
  roots :=
    [("pet", .object ⟨true, .empty, ⟨["pet"]⟩⟩
        [⟨"owner", true, .object ⟨true, .empty, ⟨["pet", "owner"]⟩⟩
            [⟨"pets", false, .array ⟨false, .empty, ⟨["pet", "owner", "pets"]⟩⟩
              (.reference ⟨true, .empty, ⟨["pet", "owner", "pets", "items"]⟩⟩
                "pet")⟩]⟩,
          ⟨"tag", false, .union ⟨false, .empty, ⟨["pet", "tag"]⟩⟩
            [.primitive ⟨false, .empty, ⟨["pet", "tag", "0"]⟩⟩ .string,
              .enum ⟨true, .empty, ⟨["pet", "tag", "1"]⟩⟩
                [.boolean true, .null]]⟩]),
      ("pet_owner", .reference ⟨true, .empty, ⟨["pet_owner"]⟩⟩ "house"),
      ("house", .map ⟨false, .empty, ⟨["house"]⟩⟩
        (.object ⟨true, .empty, ⟨["house", "values"]⟩⟩
          [⟨"pet_owner", true,
            .reference ⟨false, .empty, ⟨["house", "values", "pet_owner"]⟩⟩
              "pet_owner"⟩]))]
  distinct := by decide

theorem Forest.resolve_shelter : ∃ model, shelter.resolve = .ok model ∧
    model.declarations.map (·.name) =
      ["PetOwner2", "PetTagVariant2", "PetTag", "Pet", "PetOwner", "HouseValue",
        "House"] :=
  exists_model_of_read (by decide +kernel)

end Schemata
