import Mathlib.Data.List.Nodup
import Schemata.Proofs.Resolution.Block
import Schemata.Proofs.Resolution.Naming
import Schemata.Resolution.Basic

namespace Schemata.Resolution

/-! Runs of the resolver against the walk over the stops: they give the same names, fail
alike, and come to what is written with these names. -/

theorem ne_owner_of_promotion {owner : Position} {way : String} {index : Nat}
    {schema : Schema} {promotion : Promotion}
    (met : promotion ∈ promotionsOf (inlineStops owner way (owner.child index) schema)) :
    promotion.position ≠ owner := by
  have outlines := outlines_inlineStops owner way (owner.child index) schema
  have member : promotion.outline ∈ (shapesAt (owner.child index) schema).map outlineOf :=
    outlines.mem_iff.mp (List.mem_map_of_mem met)
  obtain ⟨shape, within, same⟩ := List.mem_map.mp member
  have position : promotion.position = shape.1 := congrArg Prod.fst same.symm
  have inside := spread_shapesAt (spread_shapesWithin (owner.child index) schema)
  rw [position]
  exact (inside.inside shape.1 (List.mem_map_of_mem within)).ne_owner

theorem root_of_promotion {forest : Forest} {root : String} {promotion : Promotion}
    (met : .promotion promotion ∈ stopsOf forest root) : promotion.position.root = root := by
  unfold stopsOf at met
  split at met
  · next schema found =>
    have own : promotion ∈ promotionsOf (definitionStops ⟨root, []⟩ schema) := by
      rw [← promotionsOf_rootStops forest root schema]
      exact List.mem_filterMap.mpr ⟨_, met, rfl⟩
    have among := (positions_definitionStops ⟨root, []⟩ schema).mem_iff.mp
      (List.mem_map_of_mem own)
    have named : promotion.position ∈ (namedNodes (root, schema)).map Prod.fst := by
      rw [namedNodes, List.map_append]
      exact List.mem_append_left _ among
    exact root_of_mem_namedNodes named
  · cases met

namespace Resolver

def pending (forest : Forest) (resolver : Resolver) : List String :=
  (forest.roots.map Prod.fst).filter fun root => resolver.states root = .pending

variable {forest : Forest} {rule : Position → String}
  {resolver middle next : Resolver} {assignment named final : Assignment}
  {stops later : List Stop} {α β γ : Type}

theorem nodup_pending : (resolver.pending forest).Nodup :=
  forest.distinct.filter _

theorem pending_enter (root : String) :
    (resolver.enter root).pending forest = (resolver.pending forest).erase root := by
  rw [nodup_pending.erase_eq_filter, pending, pending, List.filter_filter]
  refine List.filter_congr fun other _ => ?_
  by_cases same : other = root <;> simp [enter, same]

theorem pending_of_states {entered : List String}
    (states : ∀ root, next.states root =
      if root ∈ entered then .done else resolver.states root) :
    next.pending forest = (resolver.pending forest).diff entered := by
  rw [nodup_pending.sdiff_eq_filter, pending, pending, List.filter_filter]
  refine List.filter_congr fun root _ => ?_
  rw [states root]
  by_cases known : root ∈ entered <;> simp [known]

/-! What holds between the visits. -/

/-- The same names have been given, and the roots that are done have been written with
names that a rule tells. -/
structure Tracks (forest : Forest) (rule : Position → String) (resolver : Resolver)
    (assignment : Assignment) : Prop where
  registry : resolver.registry = assignment.registry
  declared : ∀ root ∈ forest.roots,
    assignment.names.lookup ⟨root.1, []⟩ = some (typeName root.1)
  settled : Assignment.Follows rule assignment.names →
    ∀ root ∈ forest.roots, resolver.states root.1 = .done →
      resolver.slots root.1 = block rule root.1 root.2

/-- The walk over the stops leads from one resolver to another. The roots it enters are
done afterwards. -/
structure Advances (forest : Forest) (rule : Position → String) (resolver : Resolver)
    (assignment : Assignment) (stops : List Stop) (next : Resolver) (named : Assignment) :
    Prop where
  tracks : Tracks forest rule next named
  run : ∃ entered events, Visits forest (resolver.pending forest) stops entered events ∧
    assignment.promoteAll events = .ok named ∧
    ∀ root, next.states root = if root ∈ entered then .done else resolver.states root

/-- What the resolver does is what the walk over the stops does. Its result is the
expected one, if the names that are given follow the rule. -/
inductive Performs (forest : Forest) (rule : Position → String) (resolver : Resolver)
    (assignment : Assignment) (stops : List Stop) (expected : α) :
    Except CompileError (α × Resolver) → Prop
  | error {entered : List String} {events : List (Except CompileError Promotion)}
      {error : CompileError}
      (visits : Visits forest (resolver.pending forest) stops entered events)
      (failed : assignment.promoteAll events = .error error) :
      Performs forest rule resolver assignment stops expected (.error error)
  | ok {value : α} {next : Resolver} {named : Assignment}
      (advances : Advances forest rule resolver assignment stops next named)
      (value_eq : Assignment.Follows rule named.names → value = expected) :
      Performs forest rule resolver assignment stops expected (.ok (value, next))

namespace Advances

theorem follows (advances : Advances forest rule resolver assignment stops next named)
    (kept : Assignment.Follows rule named.names) :
    Assignment.Follows rule assignment.names := by
  obtain ⟨entered, events, -, promoted, -⟩ := advances.run
  exact fun entry member => kept entry
    ((Assignment.suffix_of_promoteAll promoted).subset member)

theorem sublist_pending
    (advances : Advances forest rule resolver assignment stops next named) :
    (next.pending forest).Sublist (resolver.pending forest) := by
  obtain ⟨entered, events, -, -, states⟩ := advances.run
  rw [pending_of_states states]
  exact List.diff_sublist _ _

theorem nameOf_eq (advances : Advances forest rule resolver assignment stops next named)
    {position : Position} (visited : position.root ∉ resolver.pending forest)
    (apart : ∀ promotion ∈ promotionsOf stops, promotion.position ≠ position) :
    named.nameOf position = assignment.nameOf position := by
  obtain ⟨entered, events, visits, promoted, -⟩ := advances.run
  refine Assignment.nameOf_of_promoteAll promoted fun promotion reported => ?_
  obtain ⟨stop, ahead, reports⟩ := visits.exists_stop reported
  obtain rfl := Stop.eq_of_event reports
  rcases List.mem_append.mp ahead with here | inner
  · exact apart promotion (List.mem_filterMap.mpr ⟨_, here, rfl⟩)
  · obtain ⟨root, member, met⟩ := List.mem_flatMap.mp inner
    rintro rfl
    rw [root_of_promotion met] at visited
    exact visited (visits.entered_subset member)

theorem refl (tracks : Tracks forest rule resolver assignment) :
    Advances forest rule resolver assignment [] resolver assignment :=
  ⟨tracks, [], [], .done, rfl, fun _ => rfl⟩

theorem trans (first : Advances forest rule resolver assignment stops middle named)
    (second : Advances forest rule middle named later next final) :
    Advances forest rule resolver assignment (stops ++ later) next final := by
  obtain ⟨entered, events, visits, promoted, states⟩ := first.run
  obtain ⟨others, laterEvents, onwards, promotes, finished⟩ := second.run
  refine ⟨second.tracks, entered ++ others, events ++ laterEvents, ?_, ?_, ?_⟩
  · rw [pending_of_states states] at onwards
    exact visits.append (Assignment.clean_of_promoteAll promoted) onwards
  · rw [Assignment.promoteAll_append, promoted]
    exact promotes
  · intro root
    rw [finished, states]
    by_cases known : root ∈ entered <;> by_cases other : root ∈ others <;>
      simp [known, other]

end Advances

namespace Performs

variable {expected : α} {outcome : Except CompileError (α × Resolver)}

theorem of_advances (first : Advances forest rule resolver assignment stops middle named)
    (onwards : Performs forest rule middle named later expected outcome) :
    Performs forest rule resolver assignment (stops ++ later) expected outcome := by
  cases onwards with
  | error others failed =>
      obtain ⟨entered, events, visits, promoted, states⟩ := first.run
      rw [pending_of_states states] at others
      refine .error (visits.append (Assignment.clean_of_promoteAll promoted) others) ?_
      rw [Assignment.promoteAll_append, promoted]
      exact failed
  | ok second value_eq => exact .ok (first.trans second) value_eq

theorem congr {other : α}
    (performs : Performs forest rule resolver assignment stops expected outcome)
    (same : Assignment.Follows rule assignment.names → expected = other) :
    Performs forest rule resolver assignment stops other outcome := by
  cases performs with
  | error visits failed => exact .error visits failed
  | ok advances value_eq =>
      exact .ok advances fun kept => (value_eq kept).trans (same (advances.follows kept))

/-- One run after the other. What the first comes to is only known when all names are. -/
theorem bind {run : Run α} {onward : α → Run β} (finish : α → β)
    (first : Performs forest rule resolver assignment stops expected (run resolver))
    (second : ∀ value middle named,
      Advances forest rule resolver assignment stops middle named →
        Performs forest rule middle named later (finish value) (onward value middle)) :
    Performs forest rule resolver assignment (stops ++ later) (finish expected)
      ((run >>= onward) resolver) := by
  change Performs _ _ _ _ _ _ (run resolver >>= fun made => onward made.1 made.2)
  generalize run resolver = outcome at first
  cases first with
  | error visits failed =>
      obtain ⟨_, laterEvents, longer⟩ := visits.exists_append later
      refine .error longer ?_
      rw [Assignment.promoteAll_append, failed]
      rfl
  | @ok value middle named advances value_eq =>
      have onwards := second value middle named advances
      change Performs _ _ _ _ _ _ (onward value middle)
      generalize onward value middle = outcome at onwards
      cases onwards with
      | error visits failed => exact of_advances advances (.error visits failed)
      | ok again finish_eq =>
          refine .ok (advances.trans again) fun kept => ?_
          rw [finish_eq kept, value_eq (again.follows kept)]

theorem map {run : Run α} (finish : α → β)
    (performs : Performs forest rule resolver assignment stops expected (run resolver)) :
    Performs forest rule resolver assignment stops (finish expected)
      ((run >>= fun value => pure (finish value)) resolver) := by
  rw [← List.append_nil stops]
  refine performs.bind finish fun value middle named advances => ?_
  exact .ok (.refl advances.tracks) fun _ => rfl

theorem combine {run : Run α} {other : Run β} {further : β} (finish : α → β → γ)
    (first : Performs forest rule resolver assignment stops expected (run resolver))
    (second : ∀ middle named, Advances forest rule resolver assignment stops middle named →
      Performs forest rule middle named later further (other middle)) :
    Performs forest rule resolver assignment (stops ++ later) (finish expected further)
      ((do let here ← run; let there ← other; return finish here there) resolver) :=
  first.bind (finish · further) fun value middle named advances =>
    (second middle named advances).map (finish value)

end Performs

end Resolver

end Schemata.Resolution
