import Schemata.Proofs.Naming.Registry

namespace Schemata.Registry

/-! Whole runs of a registry. What a call is answered depends on the names that earlier
calls obtained, and on nothing else. -/

inductive Call where
  | claim (name : String) (location : Location)
  | synthesize (base : String) (location : Location)

def Call.location : Call → Location
  | claim _ location | synthesize _ location => location

structure Exchange where
  call : Call
  answer : Except CompileError String

/-- The name that a call obtained, with the location that it passed. -/
def Exchange.obtained? (exchange : Exchange) : Option (String × Location) :=
  exchange.answer.toOption.map fun name => (name, exchange.call.location)

def obtained (history : List Exchange) : List (String × Location) :=
  history.filterMap Exchange.obtained?

def respond (registry : Registry) : Call → Except CompileError (String × Registry)
  | .claim name location => registry.claim name location
  | .synthesize base location => registry.synthesize base location

/-- After a call that fails, the next one meets the same registry. -/
def step (registry : Registry) (call : Call) : Except CompileError String × Registry :=
  match registry.respond call with
  | .ok (name, next) => (.ok name, next)
  | .error error => (.error error, registry)

def run (registry : Registry) : List Call → List Exchange × Registry
  | [] => ([], registry)
  | call :: rest =>
      let (answer, next) := registry.step call
      let (history, last) := next.run rest
      (⟨call, answer⟩ :: history, last)

/-- The answer to a call when some names are held, each with the location of the call that
obtained it. -/
inductive Answered (held : List (String × Location)) :
    Call → Except CompileError String → Prop
  | claimed {name : String} {location : Location} (free : name ∉ held.map Prod.fst) :
      Answered held (.claim name location) (.ok name)
  | collision {name : String} {location existing : Location}
      (taken : (name, existing) ∈ held) :
      Answered held (.claim name location) (.error (.nameCollision location name existing))
  | base {base : String} {location : Location} (free : base ∉ held.map Prod.fst) :
      Answered held (.synthesize base location) (.ok base)
  | numbered {base : String} {location : Location} {number : Nat}
      (taken : base ∈ held.map Prod.fst) (low : 2 ≤ number) (high : number ≤ 999)
      (free : suffixed base number ∉ held.map Prod.fst)
      (least : ∀ smaller, 2 ≤ smaller → smaller < number →
        suffixed base smaller ∈ held.map Prod.fst) :
      Answered held (.synthesize base location) (.ok (suffixed base number))
  | exhausted {base : String} {location existing : Location}
      (taken : (base, existing) ∈ held)
      (all : ∀ number, 2 ≤ number → number ≤ 999 →
        suffixed base number ∈ held.map Prod.fst) :
      Answered held (.synthesize base location)
        (.error (.nameCollision location base existing))

section

variable {held : List (String × Location)} {call : Call}
  {answer other : Except CompileError String}

private theorem mem_names {name : String} {existing : Location}
    (taken : (name, existing) ∈ held) : name ∈ held.map Prod.fst :=
  List.mem_map_of_mem taken

private theorem existing_unique {name : String} {existing another : Location}
    (distinct : (held.map Prod.fst).Nodup) (left : (name, existing) ∈ held)
    (right : (name, another) ∈ held) : existing = another := by
  rw [← Entries.lookup_eq_some_iff distinct] at left right
  exact Option.some.inj (left.symm.trans right)

theorem Answered.unique (distinct : (held.map Prod.fst).Nodup)
    (answered : Answered held call answer) (again : Answered held call other) :
    answer = other := by
  cases answered with
  | claimed free =>
      cases again with
      | claimed => rfl
      | collision taken => exact absurd (mem_names taken) free
  | collision taken =>
      cases again with
      | claimed free => exact absurd (mem_names taken) free
      | collision held => rw [existing_unique distinct taken held]
  | base free =>
      cases again with
      | base => rfl
      | numbered taken => exact absurd taken free
      | exhausted taken => exact absurd (mem_names taken) free
  | @numbered _ _ number taken low high free least =>
      cases again with
      | base unused => exact absurd taken unused
      | @numbered _ _ another _ start _ unused lowest =>
          -- Neither number can be below the other, whose candidates below are taken.
          have upper : ¬number < another := fun below => free (lowest number low below)
          have lower : ¬another < number := fun below => unused (least another start below)
          rw [show number = another by omega]
      | exhausted _ all => exact absurd (all number low high) free
  | exhausted taken all =>
      cases again with
      | base free => exact absurd (mem_names taken) free
      | @numbered _ _ number _ low high free => exact absurd (all number low high) free
      | exhausted held => rw [existing_unique distinct taken held]

end

/-! One call. -/

section

variable {registry next : Registry} {call : Call} {name : String}

theorem gives_of_respond (responds : registry.respond call = .ok (name, next)) :
    registry.Gives call.location name next := by
  cases call with
  | claim asked location =>
      obtain ⟨rfl, gives⟩ := gives_of_claim responds
      exact gives
  | synthesize base location => exact gives_of_synthesize responds

theorem assigned_step (registry : Registry) (call : Call) :
    (registry.step call).2.assigned =
      (Exchange.mk call (registry.step call).1).obtained?.toList ++ registry.assigned := by
  rw [step]
  cases responds : registry.respond call with
  | error => rfl
  | ok given =>
      have gives := gives_of_respond responds
      simp only [gives.next_eq]
      rfl

theorem nodup_step (distinct : registry.names.Nodup) :
    (registry.step call).2.names.Nodup := by
  rw [step]
  cases responds : registry.respond call with
  | error => exact distinct
  | ok given =>
      have gives := gives_of_respond responds
      dsimp only
      rw [gives.names_eq]
      exact List.nodup_cons.mpr ⟨gives.fresh, distinct⟩

theorem step_of_error {error : CompileError}
    (failed : (registry.step call).1 = .error error) :
    (registry.step call).2 = registry := by
  rw [step] at failed ⊢
  cases responds : registry.respond call with
  | error => rfl
  | ok given => rw [responds] at failed; cases failed

theorem answered_claim (registry : Registry) (name : String) (location : Location) :
    Answered registry.assigned (.claim name location)
      (registry.step (.claim name location)).1 := by
  rw [step, respond, claim]
  cases owner : registry.owner? name with
  | none => exact .claimed (owner?_eq_none_iff.mp owner)
  | some existing => exact .collision (Entries.mem_of_lookup owner)

theorem answered_synthesize (registry : Registry) (base : String) (location : Location) :
    Answered registry.assigned (.synthesize base location)
      (registry.step (.synthesize base location)).1 := by
  rw [step, respond, synthesize]
  cases owner : registry.owner? base with
  | none => exact .base (owner?_eq_none_iff.mp owner)
  | some existing =>
      have taken := Entries.mem_of_lookup owner
      simp only [candidates, List.find?_map, isNone_owner?]
      cases search : (List.range' 2 (lastSuffix - 1)).find?
          ((fun name => decide (name ∉ registry.names)) ∘ suffixed base) with
      | none =>
          rw [List.find?_range'_eq_none] at search
          refine .exhausted taken ?_
          intro number low high
          have used : suffixed base number ∈ registry.names := by
            simpa using search number low (by rw [lastSuffix]; omega)
          exact used
      | some number =>
          obtain ⟨free, among, least⟩ := List.find?_range'_eq_some.mp search
          obtain ⟨low, high⟩ := List.mem_range'_1.mp among
          rw [lastSuffix] at high
          have unused : suffixed base number ∉ registry.names := by simpa using free
          refine .numbered (mem_names taken) low (by omega) unused ?_
          intro smaller start below
          have used : suffixed base smaller ∈ registry.names := by
            simpa using least smaller start below
          exact used

theorem answered_step (registry : Registry) (call : Call) :
    Answered registry.assigned call (registry.step call).1 := by
  cases call with
  | claim name location => exact registry.answered_claim name location
  | synthesize base location => exact registry.answered_synthesize base location

end

/-! All calls of a run. -/

section

variable (registry : Registry)

theorem run_append (calls later : List Call) :
    registry.run (calls ++ later) =
      ((registry.run calls).1 ++ ((registry.run calls).2.run later).1,
        ((registry.run calls).2.run later).2) := by
  induction calls generalizing registry with
  | nil => rfl
  | cons call rest induction => simp only [List.cons_append, run, induction]

theorem calls_run (calls : List Call) : (registry.run calls).1.map (·.call) = calls := by
  induction calls generalizing registry with
  | nil => rfl
  | cons call rest induction => simp only [run, List.map_cons, induction]

/-- The latest name comes first. -/
theorem assigned_run (calls : List Call) :
    (registry.run calls).2.assigned =
      (obtained (registry.run calls).1).reverse ++ registry.assigned := by
  induction calls generalizing registry with
  | nil => rfl
  | cons call rest induction =>
      simp only [run, induction, assigned_step, obtained, List.filterMap_cons]
      cases (Exchange.mk call (registry.step call).1).obtained? with
      | none => rfl
      | some entry => simp

variable {registry}

theorem nodup_run (distinct : registry.names.Nodup) (calls : List Call) :
    (registry.run calls).2.names.Nodup := by
  induction calls generalizing registry with
  | nil => exact distinct
  | cons call rest induction => exact induction (nodup_step distinct)

end

theorem Answered.congr {held others : List (String × Location)} {call : Call}
    {answer : Except CompileError String} (answered : Answered held call answer)
    (same : held.Perm others) : Answered others call answer := by
  have names : ∀ {name : String}, name ∈ held.map Prod.fst ↔ name ∈ others.map Prod.fst :=
    (same.map Prod.fst).mem_iff
  cases answered with
  | claimed free => exact .claimed (mt names.mpr free)
  | collision taken => exact .collision (same.mem_iff.mp taken)
  | base free => exact .base (mt names.mpr free)
  | numbered taken low high free least =>
      refine .numbered (names.mp taken) low high (mt names.mpr free) ?_
      exact fun smaller start below => names.mp (least smaller start below)
  | exhausted taken all =>
      refine .exhausted (same.mem_iff.mp taken) ?_
      exact fun number low high => names.mp (all number low high)

/-- Names are obtained once, and the registry counts them. Every call of a run has the one
answer that the names obtained before it call for, and if it fails, the run goes on as if
the call had not been made. -/
theorem answered_of_run (calls : List Call) :
    (empty.run calls).1.map (·.call) = calls ∧
    ((obtained (empty.run calls).1).map Prod.fst).Nodup ∧
    (empty.run calls).2.size = (obtained (empty.run calls).1).length ∧
    ∀ (call : Call) (later : List Call), ∃ answer rest,
      (empty.run (calls ++ call :: later)).1 =
        (empty.run calls).1 ++ ⟨call, answer⟩ :: rest ∧
      (∀ other, Answered (obtained (empty.run calls).1) call other ↔ other = answer) ∧
      ∀ error, answer = .error error →
        (empty.run (calls ++ call :: later)).2 = (empty.run (calls ++ later)).2 := by
  have assigned := assigned_run empty calls
  rw [show empty.assigned = [] from rfl, List.append_nil] at assigned
  have perm : (empty.run calls).2.assigned.Perm (obtained (empty.run calls).1) := by
    rw [assigned]
    exact List.reverse_perm _
  have fresh : empty.names.Nodup := List.nodup_nil
  have distinct := (perm.map Prod.fst).nodup_iff.mp (nodup_run fresh calls)
  refine ⟨calls_run empty calls, distinct, perm.length_eq, ?_⟩
  intro call later
  have answered := ((empty.run calls).2.answered_step call).congr perm
  refine ⟨((empty.run calls).2.step call).1,
    (((empty.run calls).2.step call).2.run later).1, ?_, ?_, ?_⟩
  · rw [run_append, run]
  · intro other
    constructor
    · intro again
      exact again.unique distinct answered
    · rintro rfl
      exact answered
  · intro error failed
    rw [run_append, run_append, run]
    simp only [step_of_error failed]

/-- A number may make the name that another call asks for. -/
def clashes : List Call :=
  [.claim "A" ⟨["a"]⟩, .claim "A2" ⟨["b"]⟩, .synthesize "A" ⟨["c"]⟩,
    .synthesize "A2" ⟨["d"]⟩, .claim "A3" ⟨["e"]⟩]

theorem answered_of_run_clashes :
    obtained (empty.run clashes).1 =
      [("A", ⟨["a"]⟩), ("A2", ⟨["b"]⟩), ("A3", ⟨["c"]⟩), ("A22", ⟨["d"]⟩)] ∧
    (empty.run clashes).2.size = 4 ∧
    Answered (obtained (empty.run clashes).1) (.claim "A22" ⟨["f"]⟩)
      (.error (.nameCollision ⟨["f"]⟩ "A22" ⟨["d"]⟩)) ∧
    (empty.run (clashes ++ [.claim "A22" ⟨["f"]⟩])).2 = (empty.run clashes).2 := by
  have names : obtained (empty.run clashes).1 =
      [("A", ⟨["a"]⟩), ("A2", ⟨["b"]⟩), ("A3", ⟨["c"]⟩), ("A22", ⟨["d"]⟩)] := by
    decide +kernel
  obtain ⟨_, _, size, answers⟩ := answered_of_run clashes
  obtain ⟨answer, _, _, only, kept⟩ := answers (.claim "A22" ⟨["f"]⟩) []
  have collides : Answered (obtained (empty.run clashes).1) (.claim "A22" ⟨["f"]⟩)
      (.error (.nameCollision ⟨["f"]⟩ "A22" ⟨["d"]⟩)) := by
    refine .collision ?_
    rw [names]
    decide
  refine ⟨names, ?_, collides, ?_⟩
  · rw [size, names]
    rfl
  · have failed := (only _).mp collides
    rw [kept _ failed.symm, List.append_nil]

end Schemata.Registry
