import Mathlib.Data.List.Chain
import Mathlib.Data.List.Forall2
import Schemata.Proofs.Resolution.Unfolding

namespace Schemata

/-! The declarations of a model stand root by root. What a root declares besides itself
is mentioned once, further down in the block of the root. -/

/-- A declaration from the place of a schema that is read back as the schema. -/
structure Model.Declares (model : Model) (forest : Forest) (schema : Schema)
    (declaration : Declaration) : Prop where
  location : declaration.location = schema.location
  unfolds : Unfolding.definitionSchema
    (Unfolding.namedSchema (forest.roots.map Prod.fst) model model.size)
    schema.nullable declaration.definition = some schema.bare

/-- The shapes inside a root in post-order, and the root. -/
structure Model.IsBlock (model : Model) (forest : Forest) (root : String × Schema)
    (promoted : List Declaration) (own : Declaration) : Prop where
  shapes : List.Forall₂ (model.Declares forest)
    (root.2.within.filter (·.NeedsName)) promoted
  last : model.Declares forest root.2 own
  named : own.name = typeName root.1
  owned : ∀ earlier declaration later,
    promoted = earlier ++ declaration :: later →
      (model.declarations.flatMap (·.definition.names)).count declaration.name = 1 ∧
      ∃ owner ∈ later ++ [own], declaration.name ∈ owner.definition.names

def Model.Mentions (model : Model) (name target : String) : Prop :=
  ∃ declaration ∈ model.declarations,
    declaration.name = name ∧ target ∈ declaration.definition.names

structure Model.OrderedBy (model : Model) (forest : Forest) : Prop where
  blocks : ∃ blocks : List (List Declaration),
    model.declarations = blocks.flatten ∧
    List.Forall₂ (fun root block => ∃ promoted own,
      block = promoted ++ [own] ∧ model.IsBlock forest root promoted own)
      forest.roots blocks
  cycles : ∀ name path,
    List.IsChain model.Mentions (name :: path ++ [name]) →
      ∃ root ∈ forest.roots, typeName root.1 ∈ name :: path

namespace Resolution.Resolved

variable {forest : Forest} {assignment : Assignment} {model : Model}

theorem names_block (resolved : Resolved forest assignment model)
    {root : String × Schema} (declared : root ∈ forest.roots) :
    (block assignment.nameOf root.1 root.2).flatMap (·.definition.names) =
      ((namedNodes root).flatMap mentionsOf).map assignment.nameOf := by
  have definitions :
      (block assignment.nameOf root.1 root.2).flatMap (·.definition.names) =
        (namedNodes root).flatMap fun node =>
          (definitionOf assignment.nameOf node.1 node.2).result.names := by
    rw [block_eq, namedNodes, List.flatMap_append, List.flatMap_append,
      List.flatMap_map]
    rfl
  rw [definitions, List.map_flatMap]
  exact List.flatMap_congr fun _ member => resolved.names_eq declared member

/-- Each shape is mentioned once in all, and else only roots are. -/
theorem perm_names (resolved : Resolved forest assignment model) :
    (model.declarations.flatMap (·.definition.names)).Perm
      (((forest.roots.flatMap fun root =>
          (shapesWithin ⟨root.1, []⟩ root.2).map Prod.fst) ++
        forest.roots.flatMap fun root => targetsOf root.2.references).map
        assignment.nameOf) := by
  have each : (forest.roots.flatMap fun root =>
      (block assignment.nameOf root.1 root.2).flatMap (·.definition.names)).Perm
      (forest.roots.flatMap fun root =>
        ((shapesWithin ⟨root.1, []⟩ root.2).map Prod.fst ++
          targetsOf root.2.references).map assignment.nameOf) := by
    refine List.Perm.flatMap_left _ ?_
    intro root declared
    rw [resolved.names_block declared]
    exact (perm_mentions_namedNodes root).map _
  rw [resolved.blocks, List.flatMap_assoc]
  refine each.trans ?_
  rw [← List.map_flatMap]
  exact (List.flatMap_append_perm _ _ _).symm.map _

theorem nodup_shape_names (resolved : Resolved forest assignment model) :
    ((forest.roots.flatMap fun root =>
      (shapesWithin ⟨root.1, []⟩ root.2).map Prod.fst).map
      assignment.nameOf).Nodup := by
  have names := (positions_perm forest).map assignment.nameOf
  rw [List.map_append] at names
  exact (names.nodup_iff.mpr resolved.named.nodup_names).of_append_left

theorem count_shape (resolved : Resolved forest assignment model)
    {root : String × Schema} (declared : root ∈ forest.roots)
    {shape : Position × Schema} (within : shape ∈ shapesWithin ⟨root.1, []⟩ root.2) :
    (model.declarations.flatMap (·.definition.names)).count
      (assignment.nameOf shape.1) = 1 := by
  rw [resolved.perm_names.count_eq, List.map_append, List.count_append]
  have once := List.count_eq_one_of_mem resolved.nodup_shape_names
    (List.mem_map_of_mem (List.mem_flatMap.mpr
      ⟨root, declared, List.mem_map_of_mem within⟩))
  have never : ((forest.roots.flatMap fun root =>
      targetsOf root.2.references).map assignment.nameOf).count
      (assignment.nameOf shape.1) = 0 := by
    -- A reference leads to the position of a root, where no shape stands.
    refine List.count_eq_zero.mpr ?_
    intro mentioned
    obtain ⟨position, member, same⟩ := List.mem_map.mp mentioned
    obtain ⟨referring, referringDeclared, referred⟩ := List.mem_flatMap.mp member
    obtain ⟨⟨target, location⟩, reference, rfl⟩ := List.mem_map.mp referred
    obtain ⟨info, found, _⟩ := Schema.mem_references.mp reference
    have targetDeclared :=
      resolved.references referring referringDeclared info target found
    exact resolved.nameOf_shape_ne declared within targetDeclared same
  rw [once, never]

theorem declares_shape (resolved : Resolved forest assignment model)
    {root : String × Schema} (declared : root ∈ forest.roots)
    {shape : Position × Schema} (within : shape ∈ shapesWithin ⟨root.1, []⟩ root.2) :
    model.Declares forest shape.2 (shapeDeclaration assignment.nameOf shape) where
  location := rfl
  unfolds :=
    resolved.definitionSchema_eq declared (List.mem_append_left _ within)

theorem declares_shapes (resolved : Resolved forest assignment model)
    {root : String × Schema} (declared : root ∈ forest.roots) :
    List.Forall₂ (model.Declares forest) (root.2.within.filter (·.NeedsName))
      ((shapesWithin ⟨root.1, []⟩ root.2).map
        (shapeDeclaration assignment.nameOf)) := by
  rw [← map_snd_shapesWithin ⟨root.1, []⟩, List.forall₂_map_left_iff,
    List.forall₂_map_right_iff, List.forall₂_same]
  intro shape within
  exact resolved.declares_shape declared within

theorem owner_of_shape (resolved : Resolved forest assignment model)
    {root : String × Schema} (declared : root ∈ forest.roots)
    {earlier later : List (Position × Schema)} {shape : Position × Schema}
    (split : shapesWithin ⟨root.1, []⟩ root.2 = earlier ++ shape :: later) :
    ∃ owner ∈ later.map (shapeDeclaration assignment.nameOf) ++
        [rootDeclaration assignment.nameOf root],
      assignment.nameOf shape.1 ∈ owner.definition.names := by
  obtain ⟨owner, member, mentioned⟩ := mentioned_later split
  have named : owner ∈ namedNodes root →
      assignment.nameOf shape.1 ∈
        (definitionOf assignment.nameOf owner.1 owner.2).result.names := by
    intro inside
    rw [resolved.names_eq declared inside]
    exact List.mem_map_of_mem mentioned
  rcases List.mem_append.mp member with after | own
  · refine ⟨shapeDeclaration assignment.nameOf owner,
      List.mem_append_left _ (List.mem_map_of_mem after), named ?_⟩
    rw [namedNodes, split]
    simp [after]
  · rw [List.mem_singleton.mp own] at named
    exact ⟨_, List.mem_append_right _ (List.mem_singleton_self _),
      named (root_mem_namedNodes root)⟩

theorem isBlock (resolved : Resolved forest assignment model)
    {root : String × Schema} (declared : root ∈ forest.roots) :
    model.IsBlock forest root
      ((shapesWithin ⟨root.1, []⟩ root.2).map
        (shapeDeclaration assignment.nameOf))
      (rootDeclaration assignment.nameOf root) where
  shapes := resolved.declares_shapes declared
  last :=
    { location := rfl
      unfolds := resolved.definitionSchema_eq declared (root_mem_namedNodes root) }
  named := resolved.named.nameOf_root (List.mem_map_of_mem declared)
  owned := by
    intro earlier declaration later split
    obtain ⟨before, rest, shapes, rfl, restMap⟩ := List.map_eq_append_iff.mp split
    obtain ⟨shape, after, rfl, rfl, rfl⟩ := List.map_eq_cons_iff.mp restMap
    have within : shape ∈ shapesWithin ⟨root.1, []⟩ root.2 := by
      rw [shapes]
      simp
    exact ⟨resolved.count_shape declared within,
      resolved.owner_of_shape declared shapes⟩

theorem blocks_eq (resolved : Resolved forest assignment model) :
    ∃ blocks : List (List Declaration), model.declarations = blocks.flatten ∧
      List.Forall₂ (fun root block => ∃ promoted own,
        block = promoted ++ [own] ∧ model.IsBlock forest root promoted own)
        forest.roots blocks := by
  refine ⟨forest.roots.map fun root : String × Schema =>
    block assignment.nameOf root.1 root.2, resolved.blocks, ?_⟩
  rw [List.forall₂_map_right_iff, List.forall₂_same]
  intro root declared
  exact ⟨_, _, block_eq _ root, resolved.isBlock declared⟩

/-! A cycle of mentions that avoids the roots would lead down for ever. -/

/-- The second name stands further down in its root than the first. -/
def Deeper (forest : Forest) (assignment : Assignment) (name target : String) :
    Prop :=
  ∃ upper ∈ positions forest, ∃ lower ∈ positions forest,
    assignment.nameOf upper = name ∧ assignment.nameOf lower = target ∧
    upper.path.length < lower.path.length

theorem deeper_trans (resolved : Resolved forest assignment model)
    {first second third : String} (upper : Deeper forest assignment first second)
    (lower : Deeper forest assignment second third) :
    Deeper forest assignment first third := by
  obtain ⟨top, topMember, middle, middleMember, topName, middleName, above⟩ := upper
  obtain ⟨other, otherMember, bottom, bottomMember, otherName, bottomName, below⟩ :=
    lower
  have same := resolved.named.nameOf_inj middleMember otherMember
    (middleName.trans otherName.symm)
  subst same
  exact ⟨top, topMember, bottom, bottomMember, topName, bottomName,
    Nat.lt_trans above below⟩

theorem deeper_irrefl (resolved : Resolved forest assignment model)
    (name : String) : ¬ Deeper forest assignment name name := by
  rintro ⟨upper, upperMember, lower, lowerMember, upperName, lowerName, below⟩
  have same := resolved.named.nameOf_inj upperMember lowerMember
    (upperName.trans lowerName.symm)
  subst same
  omega

/-- A mention is of a root or leads down. -/
theorem deeper_of_mentions (resolved : Resolved forest assignment model)
    {name target : String} (mentions : model.Mentions name target) :
    (∃ root ∈ forest.roots, typeName root.1 = target) ∨
      Deeper forest assignment name target := by
  obtain ⟨declaration, member, rfl, mentioned⟩ := mentions
  obtain ⟨root, declared, node, inside, name, definition⟩ :=
    resolved.node_of_mem member
  rw [definition, resolved.names_eq declared inside] at mentioned
  obtain ⟨position, positionMentioned, rfl⟩ := List.mem_map.mp mentioned
  have positionMember :=
    resolved.mention_mem_positions declared inside positionMentioned
  rcases depth_mentionsOf positionMentioned with atRoot | deeper
  · obtain ⟨key, path⟩ := position
    cases atRoot
    have keyDeclared := root_of_mem_positions positionMember
    obtain ⟨other, otherDeclared, rfl⟩ := List.mem_map.mp keyDeclared
    exact .inl ⟨other, otherDeclared, (resolved.named.nameOf_root keyDeclared).symm⟩
  · exact .inr ⟨node.1, mem_positions_of_named declared inside, position,
      positionMember, name.symm, rfl, deeper⟩

theorem deeper_of_chain (resolved : Resolved forest assignment model)
    {name last : String} {path : List String}
    (chain : List.IsChain model.Mentions (name :: path ++ [last])) :
    (∃ root ∈ forest.roots, typeName root.1 ∈ path ++ [last]) ∨
      Deeper forest assignment name last := by
  induction path generalizing name with
  | nil =>
      rcases resolved.deeper_of_mentions (List.isChain_pair.mp chain) with
        ⟨root, declared, rfl⟩ | deeper
      · exact .inl ⟨root, declared, List.mem_singleton_self _⟩
      · exact .inr deeper
  | cons next rest induction =>
      obtain ⟨first, remaining⟩ := List.isChain_cons_cons.mp chain
      rcases resolved.deeper_of_mentions first with ⟨root, declared, rfl⟩ | upper
      · exact .inl ⟨root, declared, List.mem_cons_self⟩
      · rcases induction remaining with ⟨root, declared, met⟩ | lower
        · exact .inl ⟨root, declared, List.mem_cons_of_mem _ met⟩
        · exact .inr (resolved.deeper_trans upper lower)

theorem root_of_cycle (resolved : Resolved forest assignment model)
    {name : String} {path : List String}
    (cycle : List.IsChain model.Mentions (name :: path ++ [name])) :
    ∃ root ∈ forest.roots, typeName root.1 ∈ name :: path := by
  rcases resolved.deeper_of_chain cycle with ⟨root, declared, met⟩ | deeper
  · refine ⟨root, declared, ?_⟩
    rcases List.mem_append.mp met with inner | back
    · exact List.mem_cons_of_mem _ inner
    · exact List.mem_singleton.mp back ▸ List.mem_cons_self
  · exact absurd deeper (resolved.deeper_irrefl name)

end Resolution.Resolved

theorem orderedBy_of_resolve {forest : Forest} {model : Model}
    (succeeds : forest.resolve = .ok model) : model.OrderedBy forest := by
  obtain ⟨assignment, resolved⟩ := Resolution.resolved_of_ok succeeds
  exact {
    blocks := resolved.blocks_eq
    cycles := fun _ _ cycle => resolved.root_of_cycle cycle }

theorem orderedBy_of_resolve_shelter : ∃ model,
    Forest.shelter.resolve = .ok model ∧ model.OrderedBy Forest.shelter := by
  obtain ⟨model, succeeds, _⟩ := Forest.resolve_shelter
  exact ⟨model, succeeds, orderedBy_of_resolve succeeds⟩

end Schemata
