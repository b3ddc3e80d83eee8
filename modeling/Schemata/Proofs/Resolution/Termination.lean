import Schemata.Proofs.Resolution.Walker
import Schemata.Proofs.Resolution.WellFormed

namespace Schemata

/-! Cycles never keep the resolution from coming to an end, and the bounds that the walk and
the search along references are given never cut them short. -/

namespace Resolution

/-- A chain of references is followed without a bound: the roots that are examined one after
the other, and the target at which the chain meets one of them again. -/
inductive Chase (forest : Forest) :
    (seen : List String) → String → (examined : List String) → Option String → Prop
  | undeclared {seen : List String} {root : String}
      (missing : forest.roots.lookup root = none) : Chase forest seen root [] none
  | concrete {seen : List String} {root : String} {schema : Schema}
      (found : forest.roots.lookup root = some schema)
      (shape : schema.reference? = none) :
      Chase forest seen root [root] none
  | again {seen : List String} {root target : String} {info : SchemaInfo}
      (found : forest.roots.lookup root = some (.reference info target))
      (known : root ∈ seen) : Chase forest seen root [root] (some target)
  | onward {seen examined : List String} {root target : String} {info : SchemaInfo}
      {outcome : Option String}
      (found : forest.roots.lookup root = some (.reference info target))
      (fresh : root ∉ seen) (later : Chase forest (root :: seen) target examined outcome) :
      Chase forest seen root (root :: examined) outcome

variable {forest : Forest}

theorem Chase.unique {seen examined others : List String} {root : String}
    {outcome other : Option String} (chase : Chase forest seen root examined outcome)
    (chased : Chase forest seen root others other) : others = examined ∧ other = outcome := by
  induction chase generalizing others other with
  | undeclared missing =>
      cases chased with
      | undeclared => exact ⟨rfl, rfl⟩
      | concrete found | again found | onward found => rw [missing] at found; cases found
  | concrete found shape =>
      cases chased with
      | undeclared missing => rw [missing] at found; cases found
      | concrete => exact ⟨rfl, rfl⟩
      | again same | onward same =>
          cases found.symm.trans same
          cases shape
  | again found known =>
      cases chased with
      | undeclared missing => rw [missing] at found; cases found
      | concrete same shape =>
          cases found.symm.trans same
          cases shape
      | again same =>
          cases found.symm.trans same
          exact ⟨rfl, rfl⟩
      | onward _ fresh => exact absurd known fresh
  | onward found fresh _ induction =>
      cases chased with
      | undeclared missing => rw [missing] at found; cases found
      | concrete same shape =>
          cases found.symm.trans same
          cases shape
      | again _ known => exact absurd known fresh
      | onward same _ later =>
          cases found.symm.trans same
          obtain ⟨rfl, rfl⟩ := induction later
          exact ⟨rfl, rfl⟩

/-- What has been seen are different roots, so the bound is not reached before one of them
comes back. -/
theorem exists_chase {bound : Nat} {seen : List String} (root : String)
    (distinct : seen.Nodup) (declared : seen ⊆ forest.roots.map Prod.fst)
    (bounded : forest.roots.length < seen.length + bound) :
    ∃ examined, Chase forest seen root examined (aliasCycle? forest bound seen root) ∧
      examined.length ≤ bound := by
  induction bound generalizing seen root with
  | zero =>
      have few := (List.subperm_of_subset distinct declared).length_le
      rw [List.length_map] at few
      omega
  | succ bound induction =>
      rw [aliasCycle?]
      split
      · next info target found =>
        by_cases known : root ∈ seen
        · rw [if_pos known]
          exact ⟨[root], .again found known, Nat.le_add_left 1 bound⟩
        · rw [if_neg known]
          have among : root ∈ forest.roots.map Prod.fst :=
            List.mem_map_of_mem (lookup_eq_some_iff.mp found)
          have left : forest.roots.length < (root :: seen).length + bound := by
            rw [List.length_cons]
            omega
          obtain ⟨examined, later, short⟩ := induction target
            (List.nodup_cons.mpr ⟨known, distinct⟩) (List.cons_subset.mpr ⟨among, declared⟩)
            left
          exact ⟨root :: examined, .onward found known later, Nat.succ_le_succ short⟩
      · next other =>
        cases found : forest.roots.lookup root with
        | none => exact ⟨[], .undeclared found, Nat.zero_le _⟩
        | some schema =>
            refine ⟨[root], .concrete found ?_, Nat.le_add_left 1 bound⟩
            cases schema with
            | reference info target => exact absurd found (other info target)
            | primitive | enum | object | array | map | untypedMap | union => rfl

/-- The schemas of all roots, with the steps that every root takes besides. -/
def workload (forest : Forest) : Nat :=
  (forest.roots.map fun root => root.2.nodes.length + 3).sum

theorem work_start_le (forest : Forest) (assignment : Assignment) :
    (Walker.start forest assignment).work forest ≤ workload forest := by
  suffices general : ∀ roots : List (String × Schema), roots ⊆ forest.roots →
      ((roots.map Prod.fst).map (rootWork forest)).sum + roots.length ≤
        (roots.map fun root => root.2.nodes.length + 3).sum from
    general forest.roots (List.Subset.refl _)
  intro roots declared
  induction roots with
  | nil => exact Nat.le_refl 0
  | cons root rest induction =>
      obtain ⟨here, later⟩ := List.cons_subset.mp declared
      have own : rootWork forest root.1 ≤ root.2.nodes.length + 2 := by
        rw [rootWork, lookup_eq_some_iff.mpr here]
        exact Nat.succ_le_succ (size_rootTasks_le root.1 root.2)
      have others := induction later
      simp only [List.map_cons, List.sum_cons, List.length_cons]
      omega

/-- What holds at every moment of a walk. -/
structure Walker.Bounded (forest : Forest) (steps : Nat) (walker : Walker) : Prop where
  steps_le : steps ≤ workload forest
  /-- No body is opened twice. -/
  once : walker.entered.Nodup
  declared : walker.entered ⊆ forest.roots.map Prod.fst
  open_le : walker.bodies.length ≤ forest.roots.length
  onwards : (∃ next, Step forest walker next) ∨ ∃ outcome, Ends forest walker outcome

theorem Reaches.bounded {assignment : Assignment} {steps : Nat} {walker : Walker}
    (reaches : Reaches forest (.start forest assignment) steps walker) :
    walker.Bounded forest steps := by
  obtain ⟨sound, spent⟩ := reaches.sound (.start assignment)
  have work := work_start_le forest assignment
  have roots := sound.parted.length_eq
  have bodies := sound.nested.length_le
  rw [List.length_append, List.length_map] at roots
  rw [List.length_map] at bodies
  exact {
    steps_le := by omega
    once := (List.nodup_append'.mp sound.nodup).1
    declared := fun root member => sound.parted.subset (List.mem_append_left _ member)
    open_le := by omega
    onwards := steps_or_ends forest walker }

theorem Reaches.settles {assignment : Assignment} {steps : Nat} {walker : Walker}
    (reaches : Reaches forest (.start forest assignment) steps walker) :
    walker.Settles forest (assignment.promoteAll (promotions forest)) := by
  induction reaches with
  | start => exact settles_start assignment
  | step earlier last induction =>
      exact induction.step (earlier.sound (.start assignment)).1 last

theorem entered_of_done {assignment final : Assignment} {steps : Nat} {finish : Walker}
    (reaches : Reaches forest (.start forest assignment) steps finish)
    (ends : Ends forest finish (.ok final)) :
    finish.bodies = [] ∧ finish.entered.Perm (forest.roots.map Prod.fst) := by
  cases ends with
  | done idle through =>
      have sound := (reaches.sound (.start assignment)).1
      have pending := sound.pending
      rw [through] at pending
      have parted := sound.parted
      rw [List.subset_nil.mp pending, List.append_nil] at parted
      exact ⟨idle, parted⟩

end Resolution

open Resolution

/-- The walk over a forest comes to an end, whatever its references are like. -/
structure Forest.WalkEnds (forest : Forest) : Prop where
  bounded : ∀ assignment steps walker,
    Reaches forest (.start forest assignment) steps walker → walker.Bounded forest steps
  /-- The end is that of the bounded walk. -/
  ends : ∀ assignment, ∃ steps finish,
    Reaches forest (.start forest assignment) steps finish ∧
    Ends forest finish (assignment.promoteAll (promotions forest))
  settled : ∀ assignment steps finish outcome,
    Reaches forest (.start forest assignment) steps finish → Ends forest finish outcome →
    outcome = assignment.promoteAll (promotions forest)
  /-- Every root has been walked when the walk succeeds, and no body is left open. -/
  complete : ∀ assignment steps finish final,
    Reaches forest (.start forest assignment) steps finish →
    Ends forest finish (.ok final) →
    finish.bodies = [] ∧ finish.entered.Perm (forest.roots.map Prod.fst)
  /-- The walk is all there is to the names of a forest, once the roots have theirs. -/
  assigned : Assignment.ofForest forest =
    Assignment.empty.declareAll forest.roots >>= fun declared =>
      declared.promoteAll (promotions forest)
  /-- The visits that lie inside each other, one root in the other, come to the same. -/
  resolved : declarations forest = do
    let assignment ← Assignment.ofForest forest
    return forest.roots.flatMap fun root => block assignment.nameOf root.1 root.2
  chased : ∀ root, ∃ examined, examined.length ≤ forest.roots.length + 1 ∧
    ∀ others outcome, Chase forest [] root others outcome ↔
      others = examined ∧
        outcome = aliasCycle? forest (forest.roots.length + 1) [] root

theorem walk_always_ends (forest : Forest) : forest.WalkEnds where
  bounded _ _ _ reaches := reaches.bounded
  ends assignment := by
    obtain ⟨steps, finish, outcome, reaches, ends⟩ := exists_end (.start assignment)
    obtain rfl := reaches.settles.ends ends
    exact ⟨steps, finish, reaches, ends⟩
  settled _ _ _ _ reaches ends := reaches.settles.ends ends
  complete _ _ _ _ := entered_of_done
  assigned := rfl
  resolved := declarations_eq forest
  chased root := by
    have bounded : forest.roots.length <
        ([] : List String).length + (forest.roots.length + 1) := by
      simp
    obtain ⟨examined, chase, short⟩ :=
      exists_chase root List.nodup_nil (List.nil_subset _) bounded
    refine ⟨examined, short, fun others outcome => ⟨chase.unique, ?_⟩⟩
    rintro ⟨rfl, rfl⟩
    exact chase

theorem walk_always_ends_shelter : ∃ declared final steps finish,
    Reaches Forest.shelter (.start Forest.shelter declared) steps finish ∧
    Ends Forest.shelter finish (.ok final) ∧
    finish.entered.Perm ["pet", "pet_owner", "house"] := by
  obtain ⟨model, succeeds, _⟩ := Forest.resolve_shelter
  obtain ⟨final, assigned, _⟩ := assigned_of_ok succeeds
  obtain ⟨declared, _, promotes⟩ := Assignment.ofForest_eq_ok_iff.mp assigned
  have walk := walk_always_ends Forest.shelter
  obtain ⟨steps, finish, reaches, ends⟩ := walk.ends declared
  rw [promotes] at ends
  obtain ⟨_, entered⟩ := walk.complete declared steps finish final reaches ends
  exact ⟨declared, final, steps, finish, reaches, ends, entered⟩

/-- The bound is met: of two roots, three are examined. -/
example : Chase Forest.mirror [] "left" ["left", "right", "left"] (some "right") :=
  .onward rfl (by decide) (.onward rfl (by decide) (.again rfl (by decide)))

end Schemata
