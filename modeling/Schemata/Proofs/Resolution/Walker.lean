import Mathlib.Algebra.BigOperators.Group.List.Basic
import Mathlib.Algebra.GroupWithZero.Nat
import Mathlib.Data.List.Nodup
import Schemata.Proofs.Resolution.AliasCycle
import Schemata.Proofs.Resolution.Assignment

namespace Schemata.Resolution

/-! The walk in single steps, without a bound. The bodies of roots lie open on top of each
other as the calls of a recursion do, each with the schemas that it has still to walk. -/

/-- What is left to do in the body of a root. -/
inductive Task where
  /-- A root that is a reference must lead to another shape in the end. -/
  | check (root : String) (location : Location)
  | inline (owner : Position) (way : String) (position : Position) (schema : Schema)

def propertyTasks (owner : Position) (index : Nat) : List (Property Schema) → List Task
  | [] => []
  | ⟨name, _, schema⟩ :: rest =>
      .inline owner (Text.pascalCase name) (owner.child index) schema ::
        propertyTasks owner (index + 1) rest

def variantTasks (owner : Position) (index : Nat) : List Schema → List Task
  | [] => []
  | variant :: rest =>
      .inline owner (variantWay index) (owner.child index) variant ::
        variantTasks owner (index + 1) rest

def rootTasks (root : String) (schema : Schema) : List Task :=
  let position : Position := ⟨root, []⟩
  match schema with
  | .reference info target =>
      [.check root info.location, .inline position "" position (.reference info target)]
  | .primitive .. | .untypedMap _ | .enum .. => []
  | .array _ items => [.inline position itemWay (position.child 0) items]
  | .map _ values => [.inline position valueWay (position.child 0) values]
  | .object _ properties => propertyTasks position 0 properties
  | .union _ variants => variantTasks position 0 variants

namespace Task

/-- What is met at the place of the task itself. -/
def met? (forest : Forest) : Task → Option Stop
  | check root location =>
      (aliasCycle? forest (forest.roots.length + 1) [] root).map fun target =>
        .failure (.malformed location (.aliasCycle target))
  | inline owner way position schema =>
      match schema with
      | .reference info target => some (.reference target info.location)
      | .primitive .. | .untypedMap _ | .array .. | .map .. => none
      | .enum info _ | .object info _ | .union info _ =>
          some (.promotion ⟨position, owner, way, info.location⟩)

def below : Task → List Task
  | check .. => []
  | inline owner way position schema =>
      match schema with
      | .reference .. | .primitive .. | .untypedMap _ | .enum .. => []
      | .array _ items => [inline owner (way ++ itemWay) (position.child 0) items]
      | .map _ values => [inline owner (way ++ valueWay) (position.child 0) values]
      | .object _ properties => propertyTasks position 0 properties
      | .union _ variants => variantTasks position 0 variants

def stops (forest : Forest) : Task → List Stop
  | check root location => ((check root location).met? forest).toList
  | inline owner way position schema => inlineStops owner way position schema

def size : Task → Nat
  | check .. => 1
  | inline _ _ _ schema => schema.nodes.length

end Task

section

variable (forest : Forest)

theorem stops_propertyTasks (owner : Position) (index : Nat)
    (properties : List (Property Schema)) :
    (propertyTasks owner index properties).flatMap (Task.stops forest) =
      propertyStops owner index properties := by
  induction properties generalizing index with
  | nil => rfl
  | cons property rest induction =>
      obtain ⟨name, required, schema⟩ := property
      rw [propertyTasks, List.flatMap_cons, induction]
      rfl

theorem stops_variantTasks (owner : Position) (index : Nat) (variants : List Schema) :
    (variantTasks owner index variants).flatMap (Task.stops forest) =
      variantStops owner index variants := by
  induction variants generalizing index with
  | nil => rfl
  | cons variant rest induction =>
      rw [variantTasks, List.flatMap_cons, induction]
      rfl

theorem Task.stops_eq (task : Task) :
    task.stops forest =
      (task.met? forest).toList ++ task.below.flatMap (Task.stops forest) := by
  cases task with
  | check => exact (List.append_nil _).symm
  | inline owner way position schema =>
      cases schema with
      | reference | primitive | untypedMap | enum => rfl
      | array | map => exact (List.flatMap_singleton _ _).symm
      | object _ properties =>
          rw [below, stops_propertyTasks]
          rfl
      | union _ variants =>
          rw [below, stops_variantTasks]
          rfl

theorem stops_rootTasks (root : String) (schema : Schema) :
    (rootTasks root schema).flatMap (Task.stops forest) = rootStops forest root schema := by
  cases schema with
  | reference info target =>
      rw [rootTasks, List.flatMap_cons, List.flatMap_singleton, Task.stops, Task.met?,
        rootStops]
      cases aliasCycle? forest (forest.roots.length + 1) [] root <;> rfl
  | primitive | untypedMap | enum => rfl
  | array | map => exact List.flatMap_singleton _ _
  | object _ properties => exact stops_propertyTasks forest ⟨root, []⟩ 0 properties
  | union _ variants => exact stops_variantTasks forest ⟨root, []⟩ 0 variants

end

theorem size_propertyTasks (owner : Position) (index : Nat)
    (properties : List (Property Schema)) :
    ((propertyTasks owner index properties).map Task.size).sum =
      (Schema.withinProperties properties).length := by
  induction properties generalizing index with
  | nil => rfl
  | cons property rest induction =>
      obtain ⟨name, required, schema⟩ := property
      rw [propertyTasks, List.map_cons, List.sum_cons, induction, Schema.withinProperties,
        List.append_cons, List.length_append]
      rfl

theorem size_variantTasks (owner : Position) (index : Nat) (variants : List Schema) :
    ((variantTasks owner index variants).map Task.size).sum =
      (Schema.withinVariants variants).length := by
  induction variants generalizing index with
  | nil => rfl
  | cons variant rest induction =>
      rw [variantTasks, List.map_cons, List.sum_cons, induction, Schema.withinVariants,
        List.append_cons, List.length_append]
      rfl

theorem Task.size_eq (task : Task) : task.size = (task.below.map size).sum + 1 := by
  cases task with
  | check => rfl
  | inline owner way position schema =>
      rw [size, Schema.nodes, List.length_append]
      cases schema with
      | reference | primitive | untypedMap | enum => rfl
      | array _ items | map _ items => rfl
      | object _ properties => rw [below, size_propertyTasks]; rfl
      | union _ variants => rw [below, size_variantTasks]; rfl

/-- A body has no more to do than there are schemas in its root, but for the check of a
reference. -/
theorem size_rootTasks_le (root : String) (schema : Schema) :
    ((rootTasks root schema).map Task.size).sum ≤ schema.nodes.length + 1 := by
  rw [Schema.nodes, List.length_append]
  cases schema with
  | reference => exact Nat.le_refl 2
  | primitive | untypedMap | enum => exact Nat.zero_le _
  | array _ items | map _ items => exact Nat.le_add_right _ 2
  | object _ properties =>
      rw [rootTasks, size_propertyTasks]
      exact Nat.le_add_right _ 2
  | union _ variants =>
      rw [rootTasks, size_variantTasks]
      exact Nat.le_add_right _ 2

structure Body where
  root : String
  tasks : List Task

structure Walker where
  assignment : Assignment
  unvisited : List String
  /-- The roots whose bodies have been opened so far, the last one first. -/
  entered : List String
  /-- The bodies that are open, the innermost first. -/
  bodies : List Body
  /-- The roots that are still to be visited in their order. -/
  outer : List (String × Schema)

namespace Walker

def start (forest : Forest) (assignment : Assignment) : Walker where
  assignment
  unvisited := forest.roots.map Prod.fst
  entered := []
  bodies := []
  outer := forest.roots

/-- Opens the body of a root that has not been visited. -/
def visit (root : String) (schema : Schema) (walker : Walker) : Walker :=
  if root ∈ walker.unvisited then
    { walker with
      unvisited := walker.unvisited.erase root
      entered := root :: walker.entered
      bodies := ⟨root, rootTasks root schema⟩ :: walker.bodies }
  else walker

end Walker

/-- The task is the next one of the innermost body, and those below it take its place. -/
def Walker.Takes (walker : Walker) (task : Task) (onward : Walker) : Prop :=
  ∃ root tasks bodies, walker.bodies = ⟨root, task :: tasks⟩ :: bodies ∧
    onward = { walker with bodies := ⟨root, task.below ++ tasks⟩ :: bodies }

/-- One step of the walk. -/
inductive Step (forest : Forest) : Walker → Walker → Prop
  | visit {walker : Walker} {root : String × Schema} {outer : List (String × Schema)}
      (idle : walker.bodies = []) (pending : walker.outer = root :: outer) :
      Step forest walker ({ walker with outer }.visit root.1 root.2)
  | close {walker : Walker} {root : String} {bodies : List Body}
      (finished : walker.bodies = ⟨root, []⟩ :: bodies) :
      Step forest walker { walker with bodies }
  | descend {walker onward : Walker} {task : Task} (takes : walker.Takes task onward)
      (silent : task.met? forest = none) : Step forest walker onward
  | promote {walker onward : Walker} {task : Task} {promotion : Promotion}
      {assignment : Assignment} (takes : walker.Takes task onward)
      (met : task.met? forest = some (.promotion promotion))
      (named : walker.assignment.promote promotion = .ok assignment) :
      Step forest walker { onward with assignment }
  | follow {walker onward : Walker} {task : Task} {target : String} {location : Location}
      {schema : Schema} (takes : walker.Takes task onward)
      (met : task.met? forest = some (.reference target location))
      (found : forest.roots.lookup target = some schema) :
      Step forest walker (onward.visit target schema)

/-- The walk is over. -/
inductive Ends (forest : Forest) : Walker → Except CompileError Assignment → Prop
  | done {walker : Walker} (idle : walker.bodies = []) (through : walker.outer = []) :
      Ends forest walker (.ok walker.assignment)
  | failure {walker onward : Walker} {task : Task} {error : CompileError}
      (takes : walker.Takes task onward) (met : task.met? forest = some (.failure error)) :
      Ends forest walker (.error error)
  | collision {walker onward : Walker} {task : Task} {promotion : Promotion}
      {error : CompileError} (takes : walker.Takes task onward)
      (met : task.met? forest = some (.promotion promotion))
      (failed : walker.assignment.promote promotion = .error error) :
      Ends forest walker (.error error)
  | unresolved {walker onward : Walker} {task : Task} {target : String}
      {location : Location} (takes : walker.Takes task onward)
      (met : task.met? forest = some (.reference target location))
      (missing : forest.roots.lookup target = none) :
      Ends forest walker (.error (.unresolvedReference location target))

theorem steps_or_ends (forest : Forest) (walker : Walker) :
    (∃ next, Step forest walker next) ∨ ∃ outcome, Ends forest walker outcome := by
  rcases open_ : walker.bodies with _ | ⟨⟨root, _ | ⟨task, tasks⟩⟩, bodies⟩
  · rcases left : walker.outer with _ | ⟨root, outer⟩
    · exact .inr ⟨_, .done open_ left⟩
    · exact .inl ⟨_, .visit open_ left⟩
  · exact .inl ⟨_, .close open_⟩
  · have takes : walker.Takes task _ := ⟨root, tasks, bodies, open_, rfl⟩
    cases met : task.met? forest with
    | none => exact .inl ⟨_, .descend takes met⟩
    | some stop =>
        cases stop with
        | failure error => exact .inr ⟨_, .failure takes met⟩
        | promotion promotion =>
            cases named : walker.assignment.promote promotion with
            | error error => exact .inr ⟨_, .collision takes met named⟩
            | ok next => exact .inl ⟨_, .promote takes met named⟩
        | reference target location =>
            cases found : forest.roots.lookup target with
            | none => exact .inr ⟨_, .unresolved takes met found⟩
            | some schema => exact .inl ⟨_, .follow takes met found⟩

/-- So many steps lead from one walker to another. -/
inductive Reaches (forest : Forest) (walker : Walker) : Nat → Walker → Prop
  | start : Reaches forest walker 0 walker
  | step {steps : Nat} {middle next : Walker} (earlier : Reaches forest walker steps middle)
      (last : Step forest middle next) : Reaches forest walker (steps + 1) next

theorem Reaches.head {forest : Forest} {walker middle next : Walker} {steps : Nat}
    (first : Step forest walker middle) (later : Reaches forest middle steps next) :
    Reaches forest walker (steps + 1) next := by
  induction later with
  | start => exact .step .start first
  | step _ last induction => exact .step induction last

/-! The work that is left falls by one with every step. -/

def rootWork (forest : Forest) (root : String) : Nat :=
  match forest.roots.lookup root with
  | some schema => ((rootTasks root schema).map Task.size).sum + 1
  | none => 0

def Body.work (body : Body) : Nat := (body.tasks.map Task.size).sum + 1

/-- Every schema takes a step, and so do the end of a body and a root that is next in
order. -/
def Walker.work (forest : Forest) (walker : Walker) : Nat :=
  (walker.unvisited.map (rootWork forest)).sum + (walker.bodies.map Body.work).sum +
    walker.outer.length

/-- A root is visited or not, and open bodies were opened in the order in which they lie
on each other. -/
structure Walker.Sound (forest : Forest) (walker : Walker) : Prop where
  parted : (walker.entered ++ walker.unvisited).Perm (forest.roots.map Prod.fst)
  nested : (walker.bodies.map Body.root).Sublist walker.entered
  outer : walker.outer ⊆ forest.roots
  pending : walker.unvisited ⊆ walker.outer.map Prod.fst

namespace Walker

variable {forest : Forest} {walker onward next : Walker} {root : String} {schema : Schema}
  {task : Task}

theorem outer_visit : (walker.visit root schema).outer = walker.outer := by
  rw [visit]
  split <;> rfl

theorem mem_unvisited_visit {other : String} (distinct : walker.unvisited.Nodup)
    (member : other ∈ (walker.visit root schema).unvisited) :
    other ≠ root ∧ other ∈ walker.unvisited := by
  rw [visit] at member
  split at member
  · exact distinct.mem_erase_iff.mp member
  · next visited => exact ⟨fun same => visited (same ▸ member), member⟩

theorem parted_visit :
    ((walker.visit root schema).entered ++ (walker.visit root schema).unvisited).Perm
      (walker.entered ++ walker.unvisited) := by
  rw [visit]
  split
  · next fresh =>
    have moved := (List.perm_cons_erase fresh).append_left walker.entered
    exact (moved.trans List.perm_middle).symm
  · exact List.Perm.refl _

theorem nested_visit (nested : (walker.bodies.map Body.root).Sublist walker.entered) :
    ((walker.visit root schema).bodies.map Body.root).Sublist
      (walker.visit root schema).entered := by
  rw [visit]
  split
  · exact nested.cons_cons root
  · exact nested

theorem sound_visit
    (parted : (walker.entered ++ walker.unvisited).Perm (forest.roots.map Prod.fst))
    (nested : (walker.bodies.map Body.root).Sublist walker.entered)
    (outer : walker.outer ⊆ forest.roots)
    (pending : ∀ other ∈ walker.unvisited, other ≠ root →
      other ∈ walker.outer.map Prod.fst) : (walker.visit root schema).Sound forest := by
  have distinct := (List.nodup_append'.mp (parted.nodup_iff.mpr forest.distinct)).2.1
  refine ⟨parted_visit.trans parted, nested_visit nested, ?_, ?_⟩
  · rwa [outer_visit]
  · intro other member
    rw [outer_visit]
    obtain ⟨different, held⟩ := mem_unvisited_visit distinct member
    exact pending other held different

theorem work_visit (found : forest.roots.lookup root = some schema) :
    (walker.visit root schema).work forest = walker.work forest := by
  rw [visit]
  split
  · next fresh =>
    -- The work of the root is no longer that of an unvisited one but of an open body.
    have moved := List.sum_map_erase (rootWork forest) fresh
    have own : rootWork forest root = Body.work ⟨root, rootTasks root schema⟩ := by
      rw [rootWork, found, Body.work]
    simp only [work, List.map_cons, List.sum_cons]
    omega
  · rfl

theorem Takes.work (takes : walker.Takes task onward) :
    walker.work forest = onward.work forest + 1 := by
  obtain ⟨root, tasks, bodies, open_, rfl⟩ := takes
  have size := task.size_eq
  simp only [Walker.work, open_, List.map_cons, List.sum_cons, Body.work, List.map_append,
    List.sum_append]
  omega

theorem Takes.sound (takes : walker.Takes task onward) (sound : walker.Sound forest) :
    onward.Sound forest := by
  obtain ⟨root, tasks, bodies, open_, rfl⟩ := takes
  obtain ⟨parted, nested, outer, pending⟩ := sound
  rw [open_] at nested
  exact ⟨parted, nested, outer, pending⟩

namespace Sound

theorem start (assignment : Assignment) : (Walker.start forest assignment).Sound forest where
  parted := List.Perm.refl _
  nested := List.nil_sublist _
  outer := List.Subset.refl _
  pending := List.Subset.refl _

variable (sound : walker.Sound forest)

include sound

theorem nodup : (walker.entered ++ walker.unvisited).Nodup :=
  sound.parted.nodup_iff.mpr forest.distinct

theorem visit : (walker.visit root schema).Sound forest :=
  sound_visit sound.parted sound.nested sound.outer fun _ held _ => sound.pending held

/-- The root that is next in order has been visited afterwards, and so need not be
visited again. -/
theorem visit_next {root : String × Schema} {outer : List (String × Schema)}
    (pending : walker.outer = root :: outer) :
    ({ walker with outer }.visit root.1 root.2).Sound forest := by
  refine sound_visit sound.parted sound.nested ?_ ?_
  · have known := sound.outer
    rw [pending] at known
    exact (List.cons_subset.mp known).2
  · intro other held different
    have among := sound.pending held
    rw [pending] at among
    exact (List.mem_cons.mp among).resolve_left different

theorem lookup_next {root : String × Schema} {outer : List (String × Schema)}
    (pending : walker.outer = root :: outer) :
    forest.roots.lookup root.1 = some root.2 :=
  lookup_eq_some_iff.mpr (sound.outer (pending ▸ List.mem_cons_self))

theorem step (step : Step forest walker next) : next.Sound forest := by
  cases step with
  | visit _ pending => exact sound.visit_next pending
  | close finished =>
      obtain ⟨parted, nested, outer, pending⟩ := sound
      rw [finished] at nested
      exact ⟨parted, (List.sublist_cons_self _ _).trans nested, outer, pending⟩
  | descend takes => exact takes.sound sound
  | promote takes =>
      obtain ⟨parted, nested, outer, pending⟩ := takes.sound sound
      exact ⟨parted, nested, outer, pending⟩
  | follow takes => exact (takes.sound sound).visit

theorem work_step (step : Step forest walker next) :
    walker.work forest = next.work forest + 1 := by
  cases step with
  | visit _ pending =>
      rw [work_visit (sound.lookup_next pending)]
      simp only [work, pending, List.length_cons]
      omega
  | close finished =>
      simp only [work, finished, List.map_cons, List.sum_cons, Body.work, List.map_nil,
        List.sum_nil]
      omega
  | descend takes => exact takes.work
  | promote takes => exact takes.work
  | follow takes _ found =>
      rw [work_visit found]
      exact takes.work

end Sound

end Walker

theorem Reaches.sound {forest : Forest} {walker next : Walker} {steps : Nat}
    (reaches : Reaches forest walker steps next) (sound : walker.Sound forest) :
    next.Sound forest ∧ steps + next.work forest = walker.work forest := by
  induction reaches with
  | start => exact ⟨sound, Nat.zero_add _⟩
  | step _ last induction =>
      obtain ⟨middle, spent⟩ := induction
      refine ⟨middle.step last, ?_⟩
      have falls := middle.work_step last
      omega

theorem exists_end {forest : Forest} {walker : Walker} (sound : walker.Sound forest) :
    ∃ steps finish outcome, Reaches forest walker steps finish ∧
      Ends forest finish outcome := by
  rcases steps_or_ends forest walker with ⟨next, step⟩ | ⟨outcome, ends⟩
  · have falls := sound.work_step step
    obtain ⟨steps, finish, outcome, reaches, ends⟩ := exists_end (sound.step step)
    exact ⟨steps + 1, finish, outcome, reaches.head step, ends⟩
  · exact ⟨0, walker, outcome, .start, ends⟩
termination_by walker.work forest

/-! The walk comes to what its stops come to, one after the other. -/

def Walker.stops (forest : Forest) (walker : Walker) : List Stop :=
  walker.bodies.flatMap (fun body => body.tasks.flatMap (Task.stops forest)) ++
    walker.outer.map rootStop

/-- The stops that are left come to the outcome. -/
def Walker.Settles (forest : Forest) (outcome : Except CompileError Assignment)
    (walker : Walker) : Prop :=
  ∃ entered events, Visits forest walker.unvisited (walker.stops forest) entered events ∧
    walker.assignment.promoteAll events = outcome

section

variable {forest : Forest} {walker onward next : Walker} {task : Task}
  {outcome other : Except CompileError Assignment}

theorem settles_start (assignment : Assignment) :
    (Walker.start forest assignment).Settles forest
      (assignment.promoteAll (promotions forest)) := by
  obtain ⟨entered, visits⟩ := visits_promotions forest
  exact ⟨entered, _, visits, rfl⟩

theorem settles_visit {root : String} {schema : Schema} {location : Location}
    {entered : List String} {events : List (Except CompileError Promotion)}
    (found : forest.roots.lookup root = some schema)
    (visits : Visits forest walker.unvisited
      (.reference root location :: walker.stops forest) entered events) :
    (walker.visit root schema).Settles forest (walker.assignment.promoteAll events) := by
  rw [Walker.visit]
  cases visits with
  | unresolved missing => rw [found] at missing; cases missing
  | @enter _ entered _ _ _ _ _ again fresh later =>
      obtain rfl := Option.some.inj (found.symm.trans again)
      rw [if_pos fresh]
      refine ⟨entered, events, ?_, rfl⟩
      rw [Walker.stops, List.flatMap_cons, stops_rootTasks, List.append_assoc]
      exact later
  | skip _ visited later =>
      rw [if_neg visited]
      exact ⟨entered, events, later, rfl⟩

theorem stops_next {root : String × Schema} {outer : List (String × Schema)}
    (idle : walker.bodies = []) (pending : walker.outer = root :: outer) :
    walker.stops forest = rootStop root :: { walker with outer }.stops forest := by
  rw [Walker.stops, Walker.stops, idle, pending]
  rfl

theorem Walker.Takes.stops (takes : walker.Takes task onward) :
    walker.stops forest = (task.met? forest).toList ++ onward.stops forest := by
  obtain ⟨root, tasks, bodies, open_, rfl⟩ := takes
  simp only [Walker.stops, open_, List.flatMap_cons, List.flatMap_append,
    task.stops_eq forest, List.append_assoc]

theorem Walker.Takes.kept (takes : walker.Takes task onward) :
    onward.unvisited = walker.unvisited ∧ onward.assignment = walker.assignment := by
  obtain ⟨root, tasks, bodies, open_, rfl⟩ := takes
  exact ⟨rfl, rfl⟩

namespace Walker.Settles

variable (settles : walker.Settles forest outcome)

include settles

theorem step (sound : walker.Sound forest) (step : Step forest walker next) :
    next.Settles forest outcome := by
  obtain ⟨entered, events, visits, rfl⟩ := settles
  cases step with
  | visit idle pending =>
      rw [stops_next idle pending] at visits
      exact settles_visit (sound.lookup_next pending) visits
  | close finished =>
      rw [stops, finished] at visits
      exact ⟨entered, events, visits, rfl⟩
  | descend takes silent =>
      obtain ⟨unvisited, assignment⟩ := takes.kept
      rw [takes.stops, silent, ← unvisited] at visits
      rw [← assignment]
      exact ⟨entered, events, visits, rfl⟩
  | promote takes met named =>
      rw [takes.stops, met, ← takes.kept.1] at visits
      cases visits with
      | @promotion _ _ _ _ events later =>
          refine ⟨entered, events, later, ?_⟩
          rw [Assignment.promoteAll_cons, named]
          rfl
  | follow takes met found =>
      obtain ⟨unvisited, assignment⟩ := takes.kept
      rw [takes.stops, met, ← unvisited] at visits
      rw [← assignment]
      exact settles_visit found visits

theorem ends (ends : Ends forest walker other) : other = outcome := by
  obtain ⟨entered, events, visits, rfl⟩ := settles
  cases ends with
  | done idle through =>
      rw [stops, idle, through] at visits
      cases visits
      rfl
  | failure takes met =>
      rw [takes.stops, met] at visits
      cases visits
      rfl
  | collision takes met failed =>
      rw [takes.stops, met] at visits
      cases visits with
      | promotion => rw [Assignment.promoteAll_cons, failed]; rfl
  | unresolved takes met missing =>
      rw [takes.stops, met] at visits
      cases visits with
      | unresolved => rfl
      | enter found | skip found => rw [missing] at found; cases found

end Walker.Settles

end

end Schemata.Resolution
