import Schemata.Proofs.Resolution.Resolver
import Schemata.Proofs.Schema.Blame
import Schemata.Proofs.Schema.Composition

namespace Schemata

/-! A forest that does not resolve is blamed on places of its schemas. -/

def Forest.places (forest : Forest) : List Location :=
  forest.roots.flatMap fun root => root.2.places

namespace Schema

variable {schema : Schema}

theorem location_mem_places (schema : Schema) : schema.location ∈ schema.places :=
  List.mem_append_right _ (List.mem_singleton_self _)

theorem place_of_reference {target : String} {location : Location}
    (member : (target, location) ∈ schema.references) : location ∈ schema.places := by
  obtain ⟨info, inside, rfl⟩ := mem_references.mp member
  apply (placesAmong_nodes schema).subset
  exact List.mem_map.mpr ⟨_, List.mem_filter.mpr ⟨inside, rfl⟩, rfl⟩

end Schema

namespace Resolution

open Outcome

/-- The shapes inside a schema stand at places of it, each at its own. -/
theorem shape_places (position : Position) (schema : Schema) :
    ((shapesWithin position schema).map (·.2.location)).Sublist
      (Schema.placesAmong schema.within) := by
  have shapes : (shapesWithin position schema).map (·.2.location) =
      (schema.within.filter (·.NeedsName)).map Schema.location := by
    rw [← map_snd_shapesWithin position schema, List.map_map]
    rfl
  rw [shapes]
  apply List.Sublist.map
  apply List.monotone_filter_right
  intro inner needsName
  exact decide_eq_true (of_decide_eq_true needsName).hasPlace

theorem place_of_promotion {position : Position} {schema : Schema} {promotion : Promotion}
    (member : promotion ∈ promotionsOf (definitionStops position schema)) :
    promotion.location ∈ schema.places := by
  have outline := List.mem_map_of_mem (f := Promotion.outline) member
  rw [(outlines_definitionStops position schema).mem_iff] at outline
  obtain ⟨shape, within, same⟩ := List.mem_map.mp outline
  have place : promotion.location = shape.2.location := (congrArg Prod.snd same).symm
  rw [place]
  apply List.mem_append_left
  apply (shape_places position schema).subset
  exact List.mem_map_of_mem within

variable {forest : Forest} {error : CompileError}

theorem mem_places {root : String × Schema} (declared : root ∈ forest.roots)
    {location : Location} (member : location ∈ root.2.places) : location ∈ forest.places :=
  List.mem_flatMap.mpr ⟨root, declared, member⟩

theorem pointsInto_unresolved {places : List Location} {location : Location} {target : String}
    (place : location ∈ places) :
    (CompileError.unresolvedReference location target).PointsInto places :=
  ⟨⟨location, place, rfl⟩, nofun⟩

theorem pointsInto_of_fault {root : String × Schema} (declared : root ∈ forest.roots)
    {stop : Stop} (member : stop ∈ rootStops forest root.1 root.2)
    (fault : stop.fault? forest = some error) : error.PointsInto forest.places := by
  rcases mem_rootStops member with ⟨target, rfl, _⟩ | inner
  · cases fault
    have place := mem_places declared root.2.location_mem_places
    exact ⟨⟨_, place, rfl⟩, nofun⟩
  · cases stop with
    | promotion => cases fault
    | failure => exact absurd inner (failure_not_mem_definitionStops _ _)
    | reference target location =>
        rw [← mem_referencesOf, referencesOf_definitionStops] at inner
        have place := mem_places declared (Schema.place_of_reference inner)
        simp only [Stop.fault?] at fault
        split at fault
        · cases fault
          exact pointsInto_unresolved place
        · cases fault

namespace Assignment

/-- Every name that was given belongs to one of the places. -/
def Within (places : List Location) (assignment : Assignment) : Prop :=
  ∀ entry ∈ assignment.registry.assigned, entry.2 ∈ places

variable {places : List Location} {assignment next : Assignment} {location : Location}
  (held : assignment.Within places) (here : location ∈ places)

include held here

theorem Within.step {position : Position} {name : String}
    (gives : assignment.Gives position location name next) : next.Within places := by
  rw [Within, gives.registry.next_eq]
  exact List.forall_mem_cons.mpr ⟨here, held⟩

theorem Within.pointsInto {base : String} {existing : Location}
    (known : (base, existing) ∈ assignment.registry.assigned) :
    (CompileError.nameCollision location base existing).PointsInto places := by
  refine ⟨⟨location, here, rfl⟩, ?_⟩
  rintro _ _ _ ⟨⟩
  exact held (base, existing) known

omit here in
theorem Within.declare {root : String} {schema : Schema}
    (place : schema.location ∈ places) :
    FailsWith (CompileError.PointsInto places) (assignment.declare root schema) ∧
      ∀ next, assignment.declare root schema = .ok next → next.Within places := by
  constructor
  · apply FailsWith.map
    intro error failed
    obtain ⟨existing, known, rfl⟩ := Registry.error_of_claim failed
    exact held.pointsInto place known
  · intro next made
    exact held.step place (gives_of_declare made)

omit here in
theorem Within.promote {promotion : Promotion} (place : promotion.location ∈ places) :
    FailsWith (CompileError.PointsInto places) (assignment.promote promotion) ∧
      ∀ next, assignment.promote promotion = .ok next → next.Within places := by
  constructor
  · apply FailsWith.map
    intro error failed
    obtain ⟨existing, known, rfl⟩ := Registry.error_of_synthesize failed
    exact held.pointsInto place known
  · intro next made
    obtain ⟨name, gives⟩ := gives_of_promote made
    exact held.step place gives

omit here in
theorem Within.declareAll {roots : List (String × Schema)}
    (each : ∀ root ∈ roots, root.2.location ∈ places) :
    FailsWith (CompileError.PointsInto places) (assignment.declareAll roots) ∧
      ∀ next, assignment.declareAll roots = .ok next → next.Within places := by
  refine FailsWith.foldlM (Assignment.Within places) ?_ held
  intro root member state kept
  exact kept.declare (each root member)

omit here in
theorem Within.promoteAll {events : List (Except CompileError Promotion)}
    (faults : ∀ error, .error error ∈ events → error.PointsInto places)
    (each : ∀ promotion, .ok promotion ∈ events → promotion.location ∈ places) :
    FailsWith (CompileError.PointsInto places) (assignment.promoteAll events) ∧
      ∀ next, assignment.promoteAll events = .ok next → next.Within places := by
  refine FailsWith.foldlM (Assignment.Within places) ?_ held
  intro event member state kept
  cases event with
  | error error => exact ⟨failsWith_error (faults error member), nofun⟩
  | ok promotion => exact kept.promote (each promotion member)

end Assignment

theorem failsWith_ofForest (forest : Forest) :
    FailsWith (CompileError.PointsInto forest.places) (Assignment.ofForest forest) := by
  have empty : Assignment.empty.Within forest.places := nofun
  have roots : ∀ root ∈ forest.roots, root.2.location ∈ forest.places := by
    intro root declared
    exact mem_places declared root.2.location_mem_places
  obtain ⟨fails, keeps⟩ := empty.declareAll roots
  apply fails.bind
  intro declared declares
  refine (Assignment.Within.promoteAll (keeps declared declares) ?_ ?_).1
  · intro error reported
    obtain ⟨root, rooted, stop, member, fault⟩ := fault_of_error_mem_promotions reported
    exact pointsInto_of_fault rooted member fault
  · intro promotion reported
    obtain ⟨root, rooted, member⟩ := promotion_of_mem_promotions reported
    rw [promotionsOf_rootStops] at member
    exact mem_places rooted (place_of_promotion member)

end Resolution

theorem Forest.failsWith_resolve (forest : Forest) :
    Outcome.FailsWith (CompileError.PointsInto forest.places) forest.resolve := by
  rw [Forest.resolve, Resolution.declarations_eq]
  exact (Resolution.failsWith_ofForest forest).map.map

end Schemata
