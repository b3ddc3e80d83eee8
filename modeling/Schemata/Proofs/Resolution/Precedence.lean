import Schemata.Proofs.Resolution.Assignment
import Schemata.Proofs.Resolution.Visit

namespace Schemata.Resolution

/-! An anonymous shape is named after its owner. A walk promotes no shape before the
owner is known, whatever roots it enters in between. -/

/-- The owner of every promotion is known or promoted before it. -/
def Led (known : List Position) : List Promotion → Prop
  | [] => True
  | promotion :: rest =>
      promotion.owner ∈ known ∧ Led (promotion.position :: known) rest

theorem Led.mono {known wider : List Position} {promotions : List Promotion}
    (led : Led known promotions) (widens : known ⊆ wider) :
    Led wider promotions := by
  induction promotions generalizing known wider with
  | nil => trivial
  | cons promotion rest induction =>
      exact ⟨widens led.1, induction led.2 (List.cons_subset_cons _ widens)⟩

theorem Led.append {known : List Position} {left right : List Promotion}
    (leftLed : Led known left) (rightLed : Led known right) :
    Led known (left ++ right) := by
  induction left generalizing known with
  | nil => exact rightLed
  | cons promotion rest induction =>
      exact ⟨leftLed.1,
        induction leftLed.2 (rightLed.mono (List.subset_cons_self _ _))⟩

mutual
theorem led_inlineStops {known : List Position} : (owner : Position) →
    (way : String) → (position : Position) → (schema : Schema) → owner ∈ known →
    Led known (promotionsOf (inlineStops owner way position schema))
  | _, _, _, .reference .., _ | _, _, _, .primitive .., _
  | _, _, _, .untypedMap _, _ => trivial
  | _, _, _, .enum .., met => ⟨met, trivial⟩
  | owner, way, position, .array _ items, met =>
      led_inlineStops owner (way ++ itemWay) (position.child 0) items met
  | owner, way, position, .map _ values, met =>
      led_inlineStops owner (way ++ valueWay) (position.child 0) values met
  | _, _, position, .object _ properties, met =>
      ⟨met, led_propertyStops position 0 properties List.mem_cons_self⟩
  | _, _, position, .union _ variants, met =>
      ⟨met, led_variantStops position 0 variants List.mem_cons_self⟩

theorem led_propertyStops {known : List Position} : (owner : Position) →
    (index : Nat) → (properties : List (Property Schema)) → owner ∈ known →
    Led known (promotionsOf (propertyStops owner index properties))
  | _, _, [], _ => trivial
  | owner, index, ⟨name, _, schema⟩ :: rest, met => by
      rw [propertyStops, promotionsOf_append]
      exact (led_inlineStops owner (Text.pascalCase name) (owner.child index)
        schema met).append (led_propertyStops owner (index + 1) rest met)

theorem led_variantStops {known : List Position} : (owner : Position) →
    (index : Nat) → (variants : List Schema) → owner ∈ known →
    Led known (promotionsOf (variantStops owner index variants))
  | _, _, [], _ => trivial
  | owner, index, variant :: rest, met => by
      rw [variantStops, promotionsOf_append]
      exact (led_inlineStops owner (variantWay index) (owner.child index) variant
        met).append (led_variantStops owner (index + 1) rest met)
end

theorem led_definitionStops {known : List Position} {position : Position}
    (schema : Schema) (met : position ∈ known) :
    Led known (promotionsOf (definitionStops position schema)) := by
  cases schema with
  | reference | primitive | untypedMap | enum => trivial
  | array _ items | map _ items => exact led_inlineStops _ _ _ items met
  | object _ properties => exact led_propertyStops _ _ properties met
  | union _ variants => exact led_variantStops _ _ variants met

/-- The stops of a root that is entered are put before the pending ones, which can
only add to what is known when those are taken. -/
theorem Visits.led {forest : Forest} {unvisited entered : List String}
    {stops : List Stop} {events : List (Except CompileError Promotion)}
    (visits : Visits forest unvisited stops entered events) {known : List Position}
    (roots : ∀ root ∈ forest.roots, (⟨root.1, []⟩ : Position) ∈ known)
    (led : Led known (promotionsOf stops)) :
    Led known (events.filterMap Except.toOption) := by
  induction visits generalizing known with
  | done | failure | unresolved => trivial
  | promotion _ induction =>
      exact ⟨led.1, induction
        (fun root declared => List.mem_cons_of_mem _ (roots root declared)) led.2⟩
  | @enter _ _ target _ schema rest _ found _ _ induction =>
      refine induction roots ?_
      rw [promotionsOf_append, promotionsOf_rootStops]
      have own := led_definitionStops schema
        (roots (target, schema) (lookup_eq_some_iff.mp found))
      exact own.append led
  | skip _ _ _ induction => exact induction roots led

def rootPositions (forest : Forest) : List Position :=
  forest.roots.map fun root => ⟨root.1, []⟩

theorem led_promotions (forest : Forest) :
    Led (rootPositions forest)
      ((promotions forest).filterMap Except.toOption) := by
  obtain ⟨entered, visits⟩ := visits_promotions forest
  refine visits.led (fun root declared => List.mem_map_of_mem declared) ?_
  rw [promotionsOf_pending]
  trivial

open Assignment in
theorem led_of_declareAll {forest : Forest} {declared : Assignment}
    (declares : empty.declareAll forest.roots = .ok declared) :
    Led (declared.names.map Prod.fst)
      ((promotions forest).filterMap Except.toOption) := by
  obtain ⟨-, names⟩ := names_of_declareAll sound_empty declares
  refine (led_promotions forest).mono fun position member => ?_
  obtain ⟨root, given, rfl⟩ := List.mem_map.mp member
  rw [names]
  refine List.mem_map.mpr ⟨declaredName root, List.mem_append_left _ ?_, rfl⟩
  exact List.mem_reverse.mpr (List.mem_map_of_mem given)

end Schemata.Resolution
