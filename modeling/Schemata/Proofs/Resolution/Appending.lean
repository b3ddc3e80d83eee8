import Schemata.Proofs.Resolution.Precedence
import Schemata.Proofs.Resolution.Resolved

namespace Schemata

/-! A root that is added at the end leaves the declarations before it as they are. Its
name is in use from the start, but no search for a name can tell. -/

namespace Resolution

/-! The walk over the longer forest begins with the walk over the shorter one. -/

/-- A forest with more roots, in which the walk treats the old ones as before. -/
structure Extends (forest wider : Forest) : Prop where
  lookup : ∀ {root schema}, forest.roots.lookup root = some schema →
    wider.roots.lookup root = some schema
  stops : ∀ {root schema}, forest.roots.lookup root = some schema →
    rootStops wider root schema = rootStops forest root schema

theorem Visits.extend {forest wider : Forest} {unvisited entered : List String}
    {stops : List Stop} {events : List (Except CompileError Promotion)}
    (visits : Visits forest unvisited stops entered events)
    (clean : ∀ error, .error error ∉ events) (extends_ : Extends forest wider)
    {more : List String} (apart : ∀ root ∈ more, forest.roots.lookup root = none) :
    ∃ left, ∀ {rest laterEntered laterEvents},
      Visits wider (left ++ more) rest laterEntered laterEvents →
      Visits wider (unvisited ++ more) (stops ++ rest) (entered ++ laterEntered)
        (events ++ laterEvents) := by
  induction visits with
  | @done unvisited => exact ⟨unvisited, id⟩
  | promotion _ induction =>
      obtain ⟨left, continues⟩ := induction fun error member =>
        clean error (List.mem_cons_of_mem _ member)
      exact ⟨left, fun later => .promotion (continues later)⟩
  | failure | unresolved => exact absurd List.mem_cons_self (clean _)
  | @enter unvisited _ target _ schema rest _ found fresh _ induction =>
      obtain ⟨left, continues⟩ := induction clean
      refine ⟨left, fun later => ?_⟩
      have whole := continues later
      rw [← extends_.stops found, List.append_assoc,
        ← List.erase_append_left _ fresh] at whole
      exact .enter (extends_.lookup found) (List.mem_append_left _ fresh) whole
  | @skip unvisited _ target _ schema rest _ found visited _ induction =>
      obtain ⟨left, continues⟩ := induction clean
      refine ⟨left, fun later =>
        .skip (extends_.lookup found) ?_ (continues later)⟩
      rw [List.mem_append, not_or]
      refine ⟨visited, fun added => ?_⟩
      rw [apart target added] at found
      cases found

section

variable {forest extended : Forest} {key : String} {schema : Schema}

theorem rootStops_of_clean (clean : ∀ error, .error error ∉ promotions forest)
    {root : String × Schema} (declared : root ∈ forest.roots) :
    rootStops forest root.1 root.2 = definitionStops ⟨root.1, []⟩ root.2 := by
  obtain ⟨root, schema⟩ := root
  have faultless := faultless_of_clean clean declared
  cases schema with
  | reference info target =>
      simp only [rootStops] at faultless ⊢
      cases reported : aliasCycle? forest (forest.roots.length + 1) [] root with
      | none => rfl
      | some met =>
          rw [reported] at faultless
          cases faultless _ List.mem_cons_self
  | primitive | enum | object | array | map | untypedMap | union => rfl

theorem mem_of_appended (appended : extended.roots = forest.roots ++ [(key, schema)])
    {root : String × Schema} (declared : root ∈ forest.roots) :
    root ∈ extended.roots := by
  rw [appended]
  exact List.mem_append_left _ declared

theorem key_not_mem (appended : extended.roots = forest.roots ++ [(key, schema)]) :
    key ∉ forest.roots.map Prod.fst := by
  have distinct := extended.distinct
  rw [appended, List.map_append] at distinct
  intro member
  exact (List.nodup_append.mp distinct).2.2 key member key
    (List.mem_singleton_self _) rfl

theorem extends_of_appended
    (appended : extended.roots = forest.roots ++ [(key, schema)])
    (clean : ∀ error, .error error ∉ promotions forest)
    (extendedClean : ∀ error, .error error ∉ promotions extended) :
    Extends forest extended where
  lookup found := lookup_eq_some_iff.mpr
    (mem_of_appended appended (lookup_eq_some_iff.mp found))
  stops found := by
    have declared := lookup_eq_some_iff.mp found
    exact (rootStops_of_clean extendedClean (mem_of_appended appended declared)).trans
      (rootStops_of_clean clean declared).symm

theorem promotions_of_appended
    (appended : extended.roots = forest.roots ++ [(key, schema)])
    (clean : ∀ error, .error error ∉ promotions forest)
    (extendedClean : ∀ error, .error error ∉ promotions extended) :
    ∃ later, promotions extended = promotions forest ++ later := by
  obtain ⟨entered, visits⟩ := visits_promotions forest
  obtain ⟨extendedEntered, extendedVisits⟩ := visits_promotions extended
  have apart : ∀ root ∈ [key], forest.roots.lookup root = none :=
    fun root member => List.mem_singleton.mp member ▸
      Entries.lookup_eq_none_iff.mpr (key_not_mem appended)
  obtain ⟨left, continues⟩ := visits.extend clean
    (extends_of_appended appended clean extendedClean) apart
  obtain ⟨_, last⟩ : ∃ entered, Visits extended (left ++ [key])
      [rootStop (key, schema)] entered (walk extended _ _ _) :=
    visits_walk (Nat.le_refl (left ++ [key]).length) [rootStop (key, schema)]
  have whole := continues last
  rw [appended, List.map_append, List.map_append] at extendedVisits
  exact ⟨_, (extendedVisits.unique whole).2⟩

end

/-! The names of the shorter forest, with one more name in use. -/

namespace Assignment

variable {assignment wider next : Assignment} {held : Position × String}
  {rule : Position → String}

/-- The second assignment has one more name. -/
structure Beside (held : Position × String) (assignment wider : Assignment) :
    Prop where
  sound : assignment.Sound
  widerSound : wider.Sound
  names : wider.names.Perm (held :: assignment.names)

theorem Beside.registry (beside : Beside held assignment wider) (known : String) :
    known ∈ wider.registry.names ↔
      known = held.2 ∨ known ∈ assignment.registry.names := by
  rw [beside.widerSound.agrees, beside.sound.agrees,
    (beside.names.map Prod.snd).mem_iff, List.map_cons, List.mem_cons]

theorem Beside.requested (beside : Beside held assignment wider)
    (follows : Follows rule (held :: assignment.names)) {promotion : Promotion}
    (known : promotion.owner ∈ assignment.names.map Prod.fst) :
    wider.requested promotion = assignment.requested promotion := by
  have narrowFollows : Follows rule assignment.names := fun entry member =>
    follows entry (List.mem_cons_of_mem _ member)
  have widerFollows : Follows rule wider.names := fun entry member =>
    follows entry (beside.names.mem_iff.mp member)
  have widerKnown : promotion.owner ∈ wider.names.map Prod.fst :=
    (beside.names.map Prod.fst).mem_iff.mpr (List.mem_cons_of_mem _ known)
  rw [Assignment.requested, Assignment.requested,
    nameOf_of_follows widerFollows widerKnown,
    nameOf_of_follows narrowFollows known]

theorem Beside.promote (beside : Beside held assignment wider)
    (follows : Follows rule (held :: next.names))
    (unheld : held.2 ∉ next.names.map Prod.snd) {promotion : Promotion}
    (known : promotion.owner ∈ assignment.names.map Prod.fst)
    (made : assignment.promote promotion = .ok next) :
    ∃ widerNext, wider.promote promotion = .ok widerNext ∧
      Beside held next widerNext := by
  obtain ⟨name, registry, given, rfl⟩ := promote_eq_ok_iff.mp made
  have different : name ≠ held.2 := fun same =>
    unheld (same ▸ List.mem_map_of_mem List.mem_cons_self)
  have narrowFollows : Follows rule (held :: assignment.names) :=
    fun entry member => follows entry
      (List.cons_subset_cons held (List.subset_cons_self _ _) member)
  have widerGiven := Registry.synthesize_beside given different beside.registry
  rw [← beside.requested narrowFollows known] at widerGiven
  refine ⟨_, promote_eq_ok_iff.mpr ⟨_, _, widerGiven, rfl⟩, ?_⟩
  exact {
    sound := beside.sound.step ⟨Registry.gives_of_synthesize given, rfl⟩
    widerSound :=
      beside.widerSound.step ⟨Registry.gives_of_synthesize widerGiven, rfl⟩
    names := (beside.names.cons _).trans (List.Perm.swap _ _ _) }

theorem Beside.promoteAll {events : List (Except CompileError Promotion)}
    (beside : Beside held assignment wider)
    (follows : Follows rule (held :: next.names))
    (unheld : held.2 ∉ next.names.map Prod.snd)
    (led : Led (assignment.names.map Prod.fst)
      (events.filterMap Except.toOption))
    (promoted : assignment.promoteAll events = .ok next) :
    ∃ widerNext, wider.promoteAll events = .ok widerNext ∧
      Beside held next widerNext := by
  induction events generalizing assignment wider with
  | nil =>
      cases promoted
      exact ⟨wider, rfl, beside⟩
  | cons event rest induction =>
      obtain ⟨middle, first, later⟩ := Outcome.bind_eq_ok_iff.mp promoted
      obtain ⟨promotion, rfl, made⟩ := Outcome.bind_eq_ok_iff.mp first
      obtain ⟨name, gives⟩ := gives_of_promote made
      obtain ⟨-, keeps, -⟩ := names_of_promoteAll (beside.sound.step gives) later
      have middleFollows : Follows rule (held :: middle.names) :=
        fun entry member => follows entry
          (List.cons_subset_cons held keeps.subset member)
      have middleUnheld : held.2 ∉ middle.names.map Prod.snd := fun member =>
        unheld (List.map_subset _ keeps.subset member)
      obtain ⟨widerMiddle, widerMade, middleBeside⟩ :=
        beside.promote middleFollows middleUnheld led.1 made
      have middleLed : Led (middle.names.map Prod.fst)
          (rest.filterMap Except.toOption) := by
        rw [gives.names_eq]
        exact led.2
      obtain ⟨widerNext, widerLater, result⟩ :=
        induction middleBeside middleLed later
      exact ⟨widerNext, Outcome.bind_eq_ok_iff.mpr ⟨widerMiddle,
        Outcome.bind_eq_ok_iff.mpr ⟨promotion, rfl, widerMade⟩, widerLater⟩,
        result⟩

end Assignment

section

variable {forest extended : Forest} {key : String} {schema : Schema}
  {assignment extendedAssignment : Assignment}

open Assignment

theorem beside_of_declareAll {declared extendedDeclared : Assignment}
    (appended : extended.roots = forest.roots ++ [(key, schema)])
    (declares : Assignment.empty.declareAll forest.roots = .ok declared)
    (extendedDeclares :
      Assignment.empty.declareAll extended.roots = .ok extendedDeclared) :
    Beside (declaredName (key, schema)) declared extendedDeclared := by
  obtain ⟨sound, names⟩ := names_of_declareAll sound_empty declares
  obtain ⟨extendedSound, extendedNames⟩ :=
    names_of_declareAll sound_empty extendedDeclares
  refine ⟨sound, extendedSound, List.Perm.of_eq ?_⟩
  rw [names, extendedNames, appended, List.map_append, List.reverse_append]
  rfl

/-- The name of the added root in its place and the old names elsewhere. -/
theorem follows_of_appended
    (appended : extended.roots = forest.roots ++ [(key, schema)])
    (named : Named forest assignment) :
    Follows
      (fun position =>
        if position.root = key then typeName key else assignment.nameOf position)
      (declaredName (key, schema) :: assignment.names) := by
  intro entry member
  rcases List.mem_cons.mp member with added | given
  · rw [added]
    simp only [declaredName, if_true]
  · have placed := named.positions_perm.mem_iff.mp (List.mem_map_of_mem given)
    have other : entry.1.root ≠ key := fun same =>
      key_not_mem appended (same ▸ root_of_mem_positions placed)
    simp only [if_neg other, named.nameOf_eq given]

/-- Every position is named as before. -/
theorem names_subset_of_appended
    (appended : extended.roots = forest.roots ++ [(key, schema)])
    (assigned : ofForest forest = .ok assignment)
    (extendedAssigned : ofForest extended = .ok extendedAssignment)
    (fresh : typeName key ∉ assignment.names.map Prod.snd) :
    assignment.names ⊆ extendedAssignment.names := by
  obtain ⟨declared, declares, promotes⟩ := ofForest_eq_ok_iff.mp assigned
  obtain ⟨extendedDeclared, extendedDeclares, extendedPromotes⟩ :=
    ofForest_eq_ok_iff.mp extendedAssigned
  have beside := beside_of_declareAll appended declares extendedDeclares
  have follows := follows_of_appended appended (named_of_ofForest assigned)
  obtain ⟨later, walk⟩ := promotions_of_appended appended
    (clean_of_promoteAll promotes) (clean_of_promoteAll extendedPromotes)
  have unheld : (declaredName (key, schema)).2 ∉ assignment.names.map Prod.snd := by
    simpa only [declaredName] using fresh
  obtain ⟨middle, first, middleBeside⟩ :=
    beside.promoteAll follows unheld (led_of_declareAll declares) promotes
  rw [walk, promoteAll_append, first] at extendedPromotes
  obtain ⟨-, keeps, -⟩ :=
    names_of_promoteAll middleBeside.widerSound extendedPromotes
  exact fun entry member => keeps.subset
    (middleBeside.names.mem_iff.mpr (List.mem_cons_of_mem _ member))

end

end Resolution

/-- The declarations of a forest come first in the model of the forest with one more
root at the end, unless the root takes a name of theirs. -/
theorem appended_root_keeps_declarations {forest extended : Forest}
    {model extendedModel : Model} {key : String} {schema : Schema}
    (appended : extended.roots = forest.roots ++ [(key, schema)])
    (succeeds : forest.resolve = .ok model)
    (fresh : typeName key ∉ model.declarations.map (·.name))
    (extendedSucceeds : extended.resolve = .ok extendedModel) :
    model.declarations <+: extendedModel.declarations := by
  obtain ⟨assignment, assigned, resolved⟩ := Resolution.assigned_of_ok succeeds
  obtain ⟨extendedAssignment, extendedAssigned, extendedResolved⟩ :=
    Resolution.assigned_of_ok extendedSucceeds
  have unheld : typeName key ∉ assignment.names.map Prod.snd := by
    rw [resolved.blocks, Resolution.map_name_blocks] at fresh
    intro held
    obtain ⟨entry, given, same⟩ := List.mem_map.mp held
    have placed := resolved.named.positions_perm.mem_iff.mp
      (List.mem_map_of_mem given)
    rw [← same, ← resolved.named.nameOf_eq given] at fresh
    exact fresh (List.mem_map_of_mem placed)
  have kept := Resolution.names_subset_of_appended appended assigned
    extendedAssigned unheld
  have blocks := resolved.blocks_of_follows fun entry given =>
    extendedResolved.named.follows_nameOf entry (kept given)
  rw [blocks, extendedResolved.blocks, appended, List.flatMap_append]
  exact List.prefix_append _ _

/-- The shelter with a root whose name is the next one after a name in use. -/
def Forest.annex : Forest where
  roots := shelter.roots ++
    [("pet_owner3", .object ⟨false, .empty, ⟨["pet_owner3"]⟩⟩
      [⟨"pet", true, .reference ⟨false, .empty, ⟨["pet_owner3", "pet"]⟩⟩ "pet"⟩,
        ⟨"owner", false, .enum ⟨true, .empty, ⟨["pet_owner3", "owner"]⟩⟩
          [.string "none"]⟩])]
  distinct := by decide

theorem Forest.resolve_annex : ∃ model, annex.resolve = .ok model := by
  have succeeds : annex.resolve.toOption.isSome := by decide +kernel
  cases result : annex.resolve with
  | error => rw [result] at succeeds; cases succeeds
  | ok model => exact ⟨model, rfl⟩

theorem appended_root_keeps_declarations_annex : ∃ model extendedModel,
    Forest.shelter.resolve = .ok model ∧
    Forest.annex.resolve = .ok extendedModel ∧
    typeName "pet_owner3" ∉ model.declarations.map (·.name) ∧
    model.declarations <+: extendedModel.declarations := by
  obtain ⟨model, succeeds, names⟩ := Forest.resolve_shelter
  obtain ⟨extendedModel, extendedSucceeds⟩ := Forest.resolve_annex
  have fresh : typeName "pet_owner3" ∉ model.declarations.map (·.name) := by
    rw [names]
    decide +kernel
  exact ⟨model, extendedModel, succeeds, extendedSucceeds, fresh,
    appended_root_keeps_declarations rfl succeeds fresh extendedSucceeds⟩

end Schemata
