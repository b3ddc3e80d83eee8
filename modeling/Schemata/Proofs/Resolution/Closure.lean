import Schemata.Proofs.Resolution.Resolved

namespace Schemata

/-! A resolved model is closed: its names are different, the roots keep their type
names, and no definition mentions a name without a declaration. -/

structure Model.ClosedOver (model : Model) (forest : Forest) : Prop where
  /-- No declaration takes the place of another. -/
  kept : ∃ declarations, Resolution.declarations forest = .ok declarations ∧
    (declarations.map (·.name)).Nodup ∧ model.declarations = declarations
  /-- A root has its type name, whatever shapes the forest contains. -/
  rooted : ∀ root ∈ forest.roots, ∃ declaration,
    model.get? (typeName root.1) = some declaration ∧
    declaration.location = root.2.location ∧
    declaration.docs = root.2.docs ∧ declaration.nullable = root.2.nullable
  closed : ∀ declaration ∈ model.declarations,
    ∀ name ∈ declaration.definition.names,
      ∃ target ∈ model.declarations, target.name = name
  nothing_dangles : model.danglingNames = []

theorem Model.danglingNames_eq_nil {model : Model}
    (closed : ∀ declaration ∈ model.declarations,
      ∀ name ∈ declaration.definition.names,
        ∃ target ∈ model.declarations, target.name = name) :
    model.danglingNames = [] := by
  have none_missing : (model.declarations.flatMap (·.definition.names)).filter
      (fun name => (model.get? name).isNone) = [] := by
    rw [List.filter_eq_nil_iff]
    intro name member missing
    obtain ⟨declaration, declared, mentioned⟩ := List.mem_flatMap.mp member
    obtain ⟨target, found⟩ := closed declaration declared name mentioned
    rw [Model.get?_eq_some_iff.mpr found] at missing
    cases missing
  rw [danglingNames, none_missing]
  rfl

namespace Resolution.Resolved

variable {forest : Forest} {assignment : Assignment} {model : Model}

theorem declared_of_mem_positions (resolved : Resolved forest assignment model)
    {position : Position} (member : position ∈ positions forest) :
    ∃ target ∈ model.declarations,
      target.name = assignment.nameOf position := by
  have named : assignment.nameOf position ∈
      model.declarations.map (·.name) := by
    rw [resolved.blocks, map_name_blocks]
    exact List.mem_map.mpr ⟨position, member, rfl⟩
  exact List.mem_map.mp named

theorem get?_root (resolved : Resolved forest assignment model)
    {root : String × Schema} (declared : root ∈ forest.roots) :
    model.get? (typeName root.1) =
      some (rootDeclaration assignment.nameOf root) := by
  refine Model.get?_eq_some_iff.mpr ⟨resolved.mem_of_root declared, ?_⟩
  exact resolved.named.nameOf_root (List.mem_map.mpr ⟨root, declared, rfl⟩)

theorem names_declared (resolved : Resolved forest assignment model)
    {declaration : Declaration} (member : declaration ∈ model.declarations)
    {name : String} (mentioned : name ∈ declaration.definition.names) :
    ∃ target ∈ model.declarations, target.name = name := by
  obtain ⟨root, declared, node, inside, _, definition⟩ :=
    resolved.node_of_mem member
  rw [definition, resolved.names_eq declared inside] at mentioned
  obtain ⟨position, positionMember, rfl⟩ := List.mem_map.mp mentioned
  exact resolved.declared_of_mem_positions
    (resolved.mention_mem_positions declared inside positionMember)

end Resolution.Resolved

theorem declared_of_mentioned {forest : Forest} {model : Model}
    (succeeds : forest.resolve = .ok model) :
    ∀ declaration ∈ model.declarations, ∀ name ∈ declaration.definition.names,
      ∃ target ∈ model.declarations, target.name = name := by
  obtain ⟨assignment, resolved⟩ := Resolution.resolved_of_ok succeeds
  exact fun declaration member name mentioned => resolved.names_declared member mentioned

theorem get?_root_of_resolve {forest : Forest} {model : Model}
    (succeeds : forest.resolve = .ok model) :
    ∀ root ∈ forest.roots, ∃ declaration,
      model.get? (typeName root.1) = some declaration ∧
      declaration.location = root.2.location ∧
      declaration.docs = root.2.docs ∧ declaration.nullable = root.2.nullable := by
  obtain ⟨assignment, resolved⟩ := Resolution.resolved_of_ok succeeds
  exact fun root declared => ⟨_, resolved.get?_root declared, rfl, rfl, rfl⟩

theorem closedOver_of_resolve {forest : Forest} {model : Model}
    (succeeds : forest.resolve = .ok model) : model.ClosedOver forest := by
  obtain ⟨assignment, resolved⟩ := Resolution.resolved_of_ok succeeds
  have closed := declared_of_mentioned succeeds
  exact {
    kept := ⟨_, resolved.declarations_eq, model.distinct, rfl⟩
    rooted := get?_root_of_resolve succeeds
    closed
    nothing_dangles := Model.danglingNames_eq_nil closed }

theorem closedOver_of_resolve_shelter : ∃ model,
    Forest.shelter.resolve = .ok model ∧ model.ClosedOver Forest.shelter := by
  obtain ⟨model, succeeds, _⟩ := Forest.resolve_shelter
  exact ⟨model, succeeds, closedOver_of_resolve succeeds⟩

end Schemata
