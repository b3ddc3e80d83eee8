import Schemata.Proofs.Resolution.Resolved

namespace Schemata

/-! Which forests resolve. A forest fails for two roots with one type name, for a
reference to nowhere, for a cycle of references, and for names that run out. -/

structure Forest.WellFormed (forest : Forest) : Prop where
  names_distinct : (forest.roots.map fun root => typeName root.1).Nodup
  references : forest.ReferencesDeclared
  /-- No chain of roots that are references comes back to where it began. -/
  no_alias_cycle : ∀ root, ¬ Relation.TransGen forest.Alias root root

/-- The roots and the anonymous objects, enumerations and unions inside them. -/
def Forest.nameCount (forest : Forest) : Nat :=
  forest.roots.length +
    (forest.roots.flatMap fun root => root.2.within.filter (·.NeedsName)).length

namespace Resolution

open Relation

variable {forest : Forest} {error : CompileError}

/-! Faults tell the truth. -/

inductive Truthful (forest : Forest) : CompileError → Prop
  | cycle {location : Location} {target : String}
      (cycle : TransGen forest.Alias target target) :
      Truthful forest (.malformed location (.aliasCycle target))
  | unresolved {root : String × Schema} {info : SchemaInfo} {target : String}
      (declared : root ∈ forest.roots)
      (found : .reference info target ∈ root.2.nodes)
      (missing : target ∉ forest.roots.map Prod.fst) :
      Truthful forest (.unresolvedReference info.location target)

theorem truthful_of_fault {root : String × Schema} (declared : root ∈ forest.roots)
    {stop : Stop} (member : stop ∈ rootStops forest root.1 root.2)
    (fault : stop.fault? forest = some error) : Truthful forest error := by
  rcases mem_rootStops member with ⟨target, rfl, cycle⟩ | inner
  · cases fault
    exact .cycle cycle
  · cases stop with
    | promotion => cases fault
    | failure => exact absurd inner (failure_not_mem_definitionStops _ _)
    | reference target location =>
        rw [← mem_referencesOf, referencesOf_definitionStops,
          Schema.mem_references] at inner
        obtain ⟨info, found, rfl⟩ := inner
        simp only [Stop.fault?] at fault
        split at fault
        · next missing =>
          cases fault
          exact .unresolved declared found
            (Entries.lookup_eq_none_iff.mp missing)
        · cases fault

theorem truthful_of_error (reported : .error error ∈ promotions forest) :
    Truthful forest error := by
  obtain ⟨root, declared, stop, member, fault⟩ :=
    fault_of_error_mem_promotions reported
  exact truthful_of_fault declared member fault

theorem not_truthful_of_wellFormed (wellFormed : forest.WellFormed) :
    ¬ Truthful forest error := by
  rintro (⟨cycle⟩ | ⟨declared, found, missing⟩)
  · exact wellFormed.no_alias_cycle _ cycle
  · exact missing (wellFormed.references _ declared _ _ found)

theorem collision_or_truthful (failed : forest.resolve = .error error) :
    Assignment.IsCollision error ∨ Truthful forest error := by
  rcases Assignment.ofForest_eq_error_iff.mp (unassigned_of_error failed) with
    declares | ⟨_, _, promotes⟩
  · exact .inl (Assignment.collision_of_declareAll declares)
  · exact (Assignment.error_of_promoteAll promotes).imp_right truthful_of_error

/-! A forest that resolves is well formed. -/

theorem no_alias_cycle_of_clean
    (clean : ∀ error, .error error ∉ promotions forest) (root : String) :
    ¬ TransGen forest.Alias root root := by
  intro cycle
  obtain ⟨target, alias_, _⟩ := TransGen.head'_iff.mp cycle
  obtain ⟨info, declared⟩ := alias_
  have found := lookup_eq_some_iff.mpr declared
  obtain ⟨error, member⟩ :=
    failure_mem_rootStops_of_cycle ⟨info, declared⟩ cycle found
  have faultless := faultless_of_clean clean declared _ member
  cases faultless

theorem names_distinct_of_named {assignment : Assignment}
    (named : Named forest assignment) :
    (forest.roots.map fun root => typeName root.1).Nodup := by
  have keys : (forest.roots.map fun root => typeName root.1) =
      (forest.roots.map Prod.fst).map typeName := by
    rw [List.map_map]
    rfl
  rw [keys]
  refine forest.distinct.map_on fun left leftMember right rightMember same => ?_
  have positions := named.nameOf_inj (root_mem_positions leftMember)
    (root_mem_positions rightMember) (by
      rw [named.nameOf_root leftMember, named.nameOf_root rightMember, same])
  exact congrArg Position.root positions

theorem wellFormed_of_ok {model : Model} (succeeds : forest.resolve = .ok model) :
    forest.WellFormed := by
  obtain ⟨assignment, assigned, _⟩ := assigned_of_ok succeeds
  obtain ⟨_, _, promotes⟩ := Assignment.ofForest_eq_ok_iff.mp assigned
  have clean := Assignment.clean_of_promoteAll promotes
  exact ⟨names_distinct_of_named (named_of_ofForest assigned),
    referencesDeclared_of_clean clean, no_alias_cycle_of_clean clean⟩

/-! A well-formed forest of moderate size resolves. -/

theorem length_filterMap_of_clean {events : List (Except CompileError Promotion)}
    (clean : ∀ error, .error error ∉ events) :
    (events.filterMap Except.toOption).length = events.length := by
  rw [List.length_filterMap_eq_countP, List.countP_eq_length]
  intro event member
  cases event with
  | error error => exact absurd member (clean error)
  | ok promotion => rfl

theorem length_promotions (clean : ∀ error, .error error ∉ promotions forest) :
    (promotions forest).length =
      (forest.roots.flatMap fun root =>
        root.2.within.filter (·.NeedsName)).length := by
  have promoted := (perm_promoted_positions clean).length_eq
  rw [List.length_map, length_filterMap_of_clean clean] at promoted
  simp only [promoted, List.length_flatMap, List.length_map, length_shapesWithin]

theorem resolve_of_wellFormed (wellFormed : forest.WellFormed)
    (few : forest.nameCount ≤ Registry.lastSuffix) :
    ∃ model, forest.resolve = .ok model := by
  have clean : ∀ error, .error error ∉ promotions forest := fun error reported =>
    not_truthful_of_wellFormed wellFormed (truthful_of_error reported)
  obtain ⟨declared, declares⟩ : ∃ declared,
      Assignment.empty.declareAll forest.roots = .ok declared :=
    Assignment.declareAll_of_nodup wellFormed.names_distinct
      (fun _ _ => List.not_mem_nil)
  obtain ⟨sound, names⟩ :=
    Assignment.names_of_declareAll Assignment.sound_empty declares
  have size : declared.registry.size = forest.roots.length := by
    rw [← Registry.length_names, sound.agrees, names]
    simp [Assignment.empty]
  have small : declared.registry.size + (promotions forest).length ≤
      Registry.lastSuffix := by
    rw [size, length_promotions clean]
    exact few
  obtain ⟨assignment, promotes⟩ := Assignment.promoteAll_of_clean clean small
  have assigned := Assignment.ofForest_eq_ok_iff.mpr ⟨declared, declares, promotes⟩
  obtain ⟨model, resolves, -⟩ := resolve_of_assigned assigned
  exact ⟨model, resolves⟩

end Resolution

/-- Exactly the well-formed forests resolve, as long as names do not run out, and an
error that is no collision of names is true of the forest. -/
theorem resolves_exactly_wellFormed (forest : Forest) :
    (∀ model, forest.resolve = .ok model → forest.WellFormed) ∧
    (forest.WellFormed → forest.nameCount ≤ 999 →
      ∃ model, forest.resolve = .ok model) ∧
    (∀ location name,
      forest.resolve = .error (.unresolvedReference location name) →
      (∃ root ∈ forest.roots, ∃ info,
        .reference info name ∈ root.2.nodes ∧ info.location = location) ∧
      name ∉ forest.roots.map Prod.fst) ∧
    (∀ location fault, forest.resolve = .error (.malformed location fault) →
      ∃ target, fault = .aliasCycle target ∧
        Relation.TransGen forest.Alias target target) := by
  refine ⟨fun model => Resolution.wellFormed_of_ok,
    Resolution.resolve_of_wellFormed, ?_, ?_⟩
  · intro location name failed
    rcases Resolution.collision_or_truthful failed with
      ⟨_, _, _, collision⟩ | truthful
    · cases collision
    · cases truthful with
      | unresolved declared found missing =>
          exact ⟨⟨_, declared, _, found, rfl⟩, missing⟩
  · intro location fault failed
    rcases Resolution.collision_or_truthful failed with
      ⟨_, _, _, collision⟩ | truthful
    · cases collision
    · cases truthful with
      | cycle cycle => exact ⟨_, rfl, cycle⟩

/-- A reference to nowhere, deep inside a root. -/
def Forest.stray : Forest where
  roots :=
    [("pet", .array ⟨false, .empty, ⟨["pet"]⟩⟩
      (.map ⟨false, .empty, ⟨["pet", "items"]⟩⟩
        (.reference ⟨false, .empty, ⟨["pet", "items", "values"]⟩⟩ "owner")))]
  distinct := by decide

/-- Two roots that only refer to each other. -/
def Forest.mirror : Forest where
  roots :=
    [("left", .reference ⟨false, .empty, ⟨["left"]⟩⟩ "right"),
      ("right", .reference ⟨false, .empty, ⟨["right"]⟩⟩ "left")]
  distinct := by decide

theorem Forest.resolve_stray : stray.resolve =
    .error (.unresolvedReference ⟨["pet", "items", "values"]⟩ "owner") := by
  rfl

theorem Forest.resolve_mirror : mirror.resolve =
    .error (.malformed ⟨["left"]⟩ (.aliasCycle "right")) := by
  rfl

theorem resolves_exactly_wellFormed_samples :
    (Forest.shelter.WellFormed ∧ ∃ model, Forest.shelter.resolve = .ok model) ∧
    "owner" ∉ Forest.stray.roots.map Prod.fst ∧
    ∃ target, Relation.TransGen Forest.mirror.Alias target target := by
  obtain ⟨model, succeeds, _⟩ := Forest.resolve_shelter
  obtain ⟨sound, complete, _, _⟩ := resolves_exactly_wellFormed Forest.shelter
  obtain ⟨_, _, unresolved, _⟩ := resolves_exactly_wellFormed Forest.stray
  obtain ⟨_, _, _, malformed⟩ := resolves_exactly_wellFormed Forest.mirror
  have wellFormed := sound model succeeds
  obtain ⟨target, _, cycle⟩ := malformed _ _ Forest.resolve_mirror
  exact ⟨⟨wellFormed, complete wellFormed (by decide)⟩,
    (unresolved _ _ Forest.resolve_stray).2, target, cycle⟩

end Schemata
