import Mathlib.Data.List.Perm.Lattice
import Schemata.Entries
import Schemata.Proofs.Resolution.Stop
import Schemata.Resolution.Walk

namespace Schemata.Resolution

/-! Runs of the walk over a forest. A run takes every stop it starts with and every
stop of the roots it enters exactly once, in an order of its own. -/

def stopsOf (forest : Forest) (root : String) : List Stop :=
  match forest.roots.lookup root with
  | some schema => rootStops forest root schema
  | none => []

theorem stopsOf_of_lookup {forest : Forest} {root : String} {schema : Schema}
    (found : forest.roots.lookup root = some schema) :
    stopsOf forest root = rootStops forest root schema := by
  simp only [stopsOf, found]

/-- The error with which a stop ends the walk. -/
def Stop.fault? (forest : Forest) : Stop → Option CompileError
  | .promotion _ => none
  | .failure error => some error
  | .reference target location =>
      match forest.roots.lookup target with
      | none => some (.unresolvedReference location target)
      | some _ => none

/-- What a stop adds to the promotions of a forest. -/
def Stop.event? (forest : Forest) : Stop → Option (Except CompileError Promotion)
  | .promotion met => some (.ok met)
  | stop => (stop.fault? forest).map .error

theorem Stop.fault_of_event {forest : Forest} {error : CompileError} {stop : Stop}
    (reports : stop.event? forest = some (.error error)) :
    stop.fault? forest = some error := by
  cases stop with
  | promotion => cases reports
  | failure => cases reports; rfl
  | reference =>
      obtain ⟨raised, fault, same⟩ := Option.map_eq_some_iff.mp reports
      cases same
      exact fault

theorem Stop.eq_of_event {forest : Forest} {promotion : Promotion} {stop : Stop}
    (reports : stop.event? forest = some (.ok promotion)) :
    stop = .promotion promotion := by
  cases stop with
  | promotion => cases reports; rfl
  | failure => cases reports
  | reference =>
      obtain ⟨_, _, same⟩ := Option.map_eq_some_iff.mp reports
      cases same

/-- A run from pending stops: the roots it enters, in order, and what it reports. -/
inductive Visits (forest : Forest) :
    (unvisited : List String) → List Stop → (entered : List String) →
    List (Except CompileError Promotion) → Prop
  | done {unvisited : List String} : Visits forest unvisited [] [] []
  | promotion {unvisited entered : List String} {promotion : Promotion}
      {rest : List Stop} {events : List (Except CompileError Promotion)}
      (later : Visits forest unvisited rest entered events) :
      Visits forest unvisited (.promotion promotion :: rest) entered
        (.ok promotion :: events)
  | failure {unvisited : List String} {error : CompileError} {rest : List Stop} :
      Visits forest unvisited (.failure error :: rest) [] [.error error]
  | unresolved {unvisited : List String} {target : String} {location : Location}
      {rest : List Stop} (missing : forest.roots.lookup target = none) :
      Visits forest unvisited (.reference target location :: rest) []
        [.error (.unresolvedReference location target)]
  | enter {unvisited entered : List String} {target : String}
      {location : Location} {schema : Schema} {rest : List Stop}
      {events : List (Except CompileError Promotion)}
      (found : forest.roots.lookup target = some schema)
      (fresh : target ∈ unvisited)
      (later : Visits forest (unvisited.erase target)
        (rootStops forest target schema ++ rest) entered events) :
      Visits forest unvisited (.reference target location :: rest)
        (target :: entered) events
  | skip {unvisited entered : List String} {target : String}
      {location : Location} {schema : Schema} {rest : List Stop}
      {events : List (Except CompileError Promotion)}
      (found : forest.roots.lookup target = some schema)
      (visited : target ∉ unvisited)
      (later : Visits forest unvisited rest entered events) :
      Visits forest unvisited (.reference target location :: rest) entered
        events

private theorem visits_follow {forest : Forest}
    {enter : List String → List Stop → List (Except CompileError Promotion)}
    {unvisited : List String}
    (enters : ∀ target ∈ unvisited, ∀ stops, ∃ entered,
      Visits forest (unvisited.erase target) stops entered
        (enter (unvisited.erase target) stops)) (stops : List Stop) :
    ∃ entered, Visits forest unvisited stops entered
      (follow forest enter unvisited stops) := by
  induction stops with
  | nil => exact ⟨[], .done⟩
  | cons stop rest induction =>
      obtain ⟨restEntered, restVisits⟩ := induction
      cases stop with
      | promotion promotion => exact ⟨restEntered, .promotion restVisits⟩
      | failure error => exact ⟨[], .failure⟩
      | reference target location =>
          cases found : forest.roots.lookup target with
          | none =>
              simp only [follow, found]
              exact ⟨[], .unresolved found⟩
          | some schema =>
              by_cases fresh : target ∈ unvisited
              · obtain ⟨entered, visits⟩ :=
                  enters target fresh (rootStops forest target schema ++ rest)
                simp only [follow, found, if_pos fresh]
                exact ⟨target :: entered, .enter found fresh visits⟩
              · simp only [follow, found, if_neg fresh]
                exact ⟨restEntered, .skip found fresh restVisits⟩

/-- The bound of the walk never cuts a run short: a root is entered once. -/
theorem visits_walk {forest : Forest} {bound : Nat} {unvisited : List String}
    (bounded : unvisited.length ≤ bound) (stops : List Stop) :
    ∃ entered, Visits forest unvisited stops entered
      (walk forest bound unvisited stops) := by
  induction bound generalizing unvisited stops with
  | zero =>
      have none_left : unvisited = [] := List.length_eq_zero_iff.mp (by omega)
      subst none_left
      exact visits_follow (by simp) stops
  | succ bound induction =>
      refine visits_follow (fun target fresh later => ?_) stops
      refine induction ?_ later
      rw [List.length_erase_of_mem fresh]
      omega

namespace Visits

variable {forest : Forest} {unvisited entered : List String} {stops : List Stop}
  {events : List (Except CompileError Promotion)}

theorem entered_subset (visits : Visits forest unvisited stops entered events) :
    entered ⊆ unvisited := by
  induction visits with
  | done | failure | unresolved => exact List.nil_subset _
  | promotion _ induction | skip _ _ _ induction => exact induction
  | enter _ fresh _ induction =>
      intro root member
      rcases List.mem_cons.mp member with rfl | later
      · exact fresh
      · exact List.mem_of_mem_erase (induction later)

theorem nodup_entered (visits : Visits forest unvisited stops entered events)
    (distinct : unvisited.Nodup) : entered.Nodup := by
  induction visits with
  | done | failure | unresolved => exact List.nodup_nil
  | promotion _ induction | skip _ _ _ induction => exact induction distinct
  | enter _ _ later induction =>
      refine List.nodup_cons.mpr
        ⟨fun again => ?_, induction (distinct.erase _)⟩
      exact (List.Nodup.not_mem_erase distinct) (later.entered_subset again)

/-- The stops that a run has to take: the pending ones and those of the roots it
enters. -/
def ahead (forest : Forest) (stops : List Stop) (entered : List String) :
    List Stop :=
  stops ++ entered.flatMap (stopsOf forest)

@[simp] theorem ahead_cons (stop : Stop) (rest : List Stop)
    (entered : List String) :
    ahead forest (stop :: rest) entered =
      stop :: ahead forest rest entered :=
  rfl

theorem ahead_enter_perm {target : String} {schema : Schema}
    (found : forest.roots.lookup target = some schema) (rest : List Stop)
    (entered : List String) :
    (ahead forest rest (target :: entered)).Perm
      (ahead forest (rootStops forest target schema ++ rest) entered) := by
  simp only [ahead, List.flatMap_cons, stopsOf_of_lookup found]
  rw [← List.append_assoc]
  exact List.perm_append_comm.append_right _

theorem exists_stop (visits : Visits forest unvisited stops entered events)
    {event : Except CompileError Promotion} (reported : event ∈ events) :
    ∃ stop ∈ ahead forest stops entered, stop.event? forest = some event := by
  induction visits with
  | done => cases reported
  | @promotion _ _ promotion _ _ _ induction =>
      rcases List.mem_cons.mp reported with rfl | later
      · exact ⟨.promotion promotion, List.mem_cons_self, rfl⟩
      · obtain ⟨stop, member, reports⟩ := induction later
        exact ⟨stop, List.mem_cons_of_mem _ member, reports⟩
  | @failure _ error =>
      rw [List.mem_singleton.mp reported]
      exact ⟨.failure error, List.mem_cons_self, rfl⟩
  | @unresolved _ target location _ missing =>
      rw [List.mem_singleton.mp reported]
      refine ⟨.reference target location, List.mem_cons_self, ?_⟩
      simp only [Stop.event?, Stop.fault?, missing, Option.map_some]
  | enter found _ _ induction =>
      obtain ⟨stop, member, reports⟩ := induction reported
      exact ⟨stop, List.mem_cons_of_mem _
        ((ahead_enter_perm found _ _).mem_iff.mpr member), reports⟩
  | skip _ _ _ induction =>
      obtain ⟨stop, member, reports⟩ := induction reported
      exact ⟨stop, List.mem_cons_of_mem _ member, reports⟩

theorem faultless (visits : Visits forest unvisited stops entered events)
    (clean : ∀ error, .error error ∉ events) :
    ∀ stop ∈ ahead forest stops entered, stop.fault? forest = none := by
  induction visits with
  | done => simp [ahead]
  | promotion _ induction =>
      have rest := induction fun error member =>
        clean error (List.mem_cons_of_mem _ member)
      simpa [Stop.fault?] using rest
  | failure | unresolved => exact absurd List.mem_cons_self (clean _)
  | enter found _ _ induction =>
      intro stop member
      rcases List.mem_cons.mp member with rfl | member
      · simp only [Stop.fault?, found]
      · exact induction clean stop
          ((ahead_enter_perm found _ _).mem_iff.mp member)
  | skip found _ _ induction =>
      intro stop member
      rcases List.mem_cons.mp member with rfl | member
      · simp only [Stop.fault?, found]
      · exact induction clean stop member

/-- A run without a fault enters every root that a stop refers to, unless an
earlier run did. -/
theorem entered_of_reference
    (visits : Visits forest unvisited stops entered events)
    (clean : ∀ error, .error error ∉ events) {target : String}
    {location : Location}
    (referred : .reference target location ∈ ahead forest stops entered)
    (fresh : target ∈ unvisited) : target ∈ entered := by
  induction visits with
  | done => simp [ahead] at referred
  | promotion _ induction =>
      exact induction (fun error member =>
        clean error (List.mem_cons_of_mem _ member)) (by simpa using referred)
        fresh
  | failure | unresolved => exact absurd List.mem_cons_self (clean _)
  | @enter _ _ other _ _ _ _ found _ _ induction =>
      by_cases same : target = other
      · exact same ▸ List.mem_cons_self
      · refine List.mem_cons_of_mem _ (induction clean ?_
          ((List.mem_erase_of_ne same).mpr fresh))
        rw [ahead_cons] at referred
        rcases List.mem_cons.mp referred with head | member
        · exact absurd (Stop.reference.inj head).1 same
        · exact (ahead_enter_perm found _ _).mem_iff.mp member
  | skip _ visited _ induction =>
      rw [ahead_cons] at referred
      rcases List.mem_cons.mp referred with head | member
      · exact absurd fresh ((Stop.reference.inj head).1 ▸ visited)
      · exact induction clean member fresh

/-- A run is determined by the stops it starts with. -/
theorem unique {otherEntered : List String}
    {otherEvents : List (Except CompileError Promotion)}
    (visits : Visits forest unvisited stops entered events)
    (other : Visits forest unvisited stops otherEntered otherEvents) :
    entered = otherEntered ∧ events = otherEvents := by
  induction visits generalizing otherEntered otherEvents with
  | done =>
      cases other
      exact ⟨rfl, rfl⟩
  | promotion _ induction =>
      cases other with
      | promotion later =>
          obtain ⟨rfl, rfl⟩ := induction later
          exact ⟨rfl, rfl⟩
  | failure =>
      cases other
      exact ⟨rfl, rfl⟩
  | unresolved missing =>
      cases other with
      | unresolved => exact ⟨rfl, rfl⟩
      | enter found | skip found => rw [missing] at found; cases found
  | enter found fresh _ induction =>
      cases other with
      | unresolved missing => rw [found] at missing; cases missing
      | enter again _ later =>
          obtain rfl := Option.some.inj (found.symm.trans again)
          obtain ⟨rfl, rfl⟩ := induction later
          exact ⟨rfl, rfl⟩
      | skip _ visited => exact absurd fresh visited
  | skip found visited _ induction =>
      cases other with
      | unresolved missing => rw [found] at missing; cases missing
      | enter _ fresh => exact absurd fresh visited
      | skip _ _ later => exact induction later

/-- A run that comes to the end of its stops can go on with others. -/
theorem append {others : List Stop} {laterEntered : List String}
    {laterEvents : List (Except CompileError Promotion)}
    (visits : Visits forest unvisited stops entered events)
    (clean : ∀ error, .error error ∉ events)
    (later : Visits forest (unvisited.diff entered) others laterEntered laterEvents) :
    Visits forest unvisited (stops ++ others) (entered ++ laterEntered)
      (events ++ laterEvents) := by
  induction visits with
  | done => exact later
  | promotion _ induction =>
      exact .promotion (induction (fun error member =>
        clean error (List.mem_cons_of_mem _ member)) later)
  | failure | unresolved => exact absurd List.mem_cons_self (clean _)
  | enter found fresh _ induction =>
      rw [List.diff_cons] at later
      have longer := induction clean later
      rw [List.append_assoc] at longer
      exact .enter found fresh longer
  | skip found visited _ induction => exact .skip found visited (induction clean later)

/-- The stops that come later change nothing before. -/
theorem exists_append (visits : Visits forest unvisited stops entered events)
    (others : List Stop) : ∃ laterEntered laterEvents,
      Visits forest unvisited (stops ++ others) (entered ++ laterEntered)
        (events ++ laterEvents) := by
  induction visits with
  | @done unvisited =>
      obtain ⟨laterEntered, later⟩ := visits_walk (Nat.le_refl unvisited.length) others
      exact ⟨laterEntered, _, later⟩
  | promotion _ induction =>
      obtain ⟨laterEntered, laterEvents, longer⟩ := induction
      exact ⟨laterEntered, laterEvents, .promotion longer⟩
  | failure => exact ⟨[], [], .failure⟩
  | unresolved missing => exact ⟨[], [], .unresolved missing⟩
  | enter found fresh _ induction =>
      obtain ⟨laterEntered, laterEvents, longer⟩ := induction
      rw [List.append_assoc] at longer
      exact ⟨laterEntered, laterEvents, .enter found fresh longer⟩
  | skip found visited _ induction =>
      obtain ⟨laterEntered, laterEvents, longer⟩ := induction
      exact ⟨laterEntered, laterEvents, .skip found visited longer⟩

/-- A run without a fault reports every promotion that lies ahead once. -/
theorem perm_promotions
    (visits : Visits forest unvisited stops entered events)
    (clean : ∀ error, .error error ∉ events) :
    (events.filterMap Except.toOption).Perm
      (promotionsOf (ahead forest stops entered)) := by
  induction visits with
  | done => exact List.Perm.refl _
  | promotion _ induction =>
      exact (induction fun error member =>
        clean error (List.mem_cons_of_mem _ member)).cons _
  | failure | unresolved => exact absurd List.mem_cons_self (clean _)
  | enter found _ _ induction =>
      exact (induction clean).trans
        ((ahead_enter_perm found _ _).filterMap _).symm
  | skip _ _ _ induction => exact induction clean

end Visits

/-! The run over the whole forest. -/

section

variable {forest : Forest}

theorem lookup_eq_some_iff {root : String} {schema : Schema} :
    forest.roots.lookup root = some schema ↔ (root, schema) ∈ forest.roots :=
  Entries.lookup_eq_some_iff forest.distinct

def rootStop (root : String × Schema) : Stop :=
  .reference root.1 root.2.location

private theorem stopsOf_root {root : String × Schema}
    (declared : root ∈ forest.roots) :
    stopsOf forest root.1 = rootStops forest root.1 root.2 :=
  stopsOf_of_lookup (lookup_eq_some_iff.mpr declared)

theorem visits_promotions (forest : Forest) : ∃ entered,
    Visits forest (forest.roots.map Prod.fst) (forest.roots.map rootStop) entered
      (promotions forest) :=
  visits_walk (Nat.le_of_eq (List.length_map _)) _

/-- Everything that the walk reports, it reports for a stop of a root. -/
theorem exists_stop_of_mem_promotions {event : Except CompileError Promotion}
    (reported : event ∈ promotions forest) :
    ∃ root ∈ forest.roots, ∃ stop ∈ rootStops forest root.1 root.2,
      stop.event? forest = some event := by
  obtain ⟨entered, visits⟩ := visits_promotions forest
  obtain ⟨stop, ahead, reports⟩ := visits.exists_stop reported
  rcases List.mem_append.mp ahead with pending | inner
  · obtain ⟨root, declared, rfl⟩ := List.mem_map.mp pending
    have found := lookup_eq_some_iff.mpr declared
    simp [rootStop, Stop.event?, Stop.fault?, found] at reports
  · obtain ⟨root, visited, member⟩ := List.mem_flatMap.mp inner
    obtain ⟨⟨root, schema⟩, declared, rfl⟩ :=
      List.mem_map.mp (visits.entered_subset visited)
    rw [stopsOf_root declared] at member
    exact ⟨_, declared, stop, member, reports⟩

theorem fault_of_error_mem_promotions {error : CompileError}
    (reported : .error error ∈ promotions forest) :
    ∃ root ∈ forest.roots, ∃ stop ∈ rootStops forest root.1 root.2,
      stop.fault? forest = some error := by
  obtain ⟨root, declared, stop, member, reports⟩ := exists_stop_of_mem_promotions reported
  exact ⟨root, declared, stop, member, Stop.fault_of_event reports⟩

theorem promotion_of_mem_promotions {promotion : Promotion}
    (reported : .ok promotion ∈ promotions forest) :
    ∃ root ∈ forest.roots, promotion ∈ promotionsOf (rootStops forest root.1 root.2) := by
  obtain ⟨root, declared, stop, member, reports⟩ := exists_stop_of_mem_promotions reported
  rw [Stop.eq_of_event reports] at member
  exact ⟨root, declared, List.mem_filterMap.mpr ⟨_, member, rfl⟩⟩

/-- A walk without a fault enters every root. -/
theorem entered_perm {entered : List String}
    (visits : Visits forest (forest.roots.map Prod.fst)
      (forest.roots.map rootStop) entered (promotions forest))
    (clean : ∀ error, .error error ∉ promotions forest) :
    entered.Perm (forest.roots.map Prod.fst) := by
  refine (List.perm_ext_iff_of_nodup (visits.nodup_entered forest.distinct)
    forest.distinct).mpr fun root => ⟨fun member => visits.entered_subset member,
      fun declared => ?_⟩
  obtain ⟨entry, member, rfl⟩ := List.mem_map.mp declared
  have pending : rootStop entry ∈ forest.roots.map rootStop :=
    List.mem_map.mpr ⟨entry, member, rfl⟩
  exact visits.entered_of_reference clean (List.mem_append_left _ pending) declared

theorem faultless_of_clean (clean : ∀ error, .error error ∉ promotions forest)
    {root : String × Schema} (declared : root ∈ forest.roots) :
    ∀ stop ∈ rootStops forest root.1 root.2, stop.fault? forest = none := by
  obtain ⟨entered, visits⟩ := visits_promotions forest
  intro stop member
  have visited : root.1 ∈ entered := (entered_perm visits clean).mem_iff.mpr
    (List.mem_map.mpr ⟨root, declared, rfl⟩)
  refine visits.faultless clean stop (List.mem_append_right _ ?_)
  exact List.mem_flatMap.mpr ⟨root.1, visited, stopsOf_root declared ▸ member⟩

theorem promotionsOf_rootStops (forest : Forest) (root : String)
    (schema : Schema) :
    promotionsOf (rootStops forest root schema) =
      promotionsOf (definitionStops ⟨root, []⟩ schema) := by
  unfold rootStops
  split
  · split <;> rfl
  · rfl

@[simp] theorem promotionsOf_pending (roots : List (String × Schema)) :
    promotionsOf (roots.map rootStop) = [] := by
  simp [promotionsOf, List.filterMap_map, Function.comp_def, rootStop,
    Stop.promotion?]

/-- A walk without a fault reports the promotions of every root once. -/
theorem perm_promotions_roots
    (clean : ∀ error, .error error ∉ promotions forest) :
    ((promotions forest).filterMap Except.toOption).Perm
      (forest.roots.flatMap fun root =>
        promotionsOf (definitionStops ⟨root.1, []⟩ root.2)) := by
  obtain ⟨entered, visits⟩ := visits_promotions forest
  refine (visits.perm_promotions clean).trans ?_
  rw [Visits.ahead, promotionsOf_append, promotionsOf_pending, List.nil_append,
    promotionsOf, List.filterMap_flatMap]
  refine ((entered_perm visits clean).flatMap_right _).trans ?_
  rw [List.flatMap_map]
  refine List.Perm.flatMap_left _ fun root declared => List.Perm.of_eq ?_
  rw [stopsOf_root declared]
  exact promotionsOf_rootStops forest root.1 root.2

/-- A walk without a fault promotes every anonymous shape of the forest once. -/
theorem perm_promoted_positions
    (clean : ∀ error, .error error ∉ promotions forest) :
    (((promotions forest).filterMap Except.toOption).map (·.position)).Perm
      (forest.roots.flatMap fun root =>
        (shapesWithin ⟨root.1, []⟩ root.2).map Prod.fst) := by
  refine ((perm_promotions_roots clean).map _).trans ?_
  rw [List.map_flatMap]
  exact List.Perm.flatMap_left _ fun root _ =>
    positions_definitionStops ⟨root.1, []⟩ root.2

end

end Schemata.Resolution
