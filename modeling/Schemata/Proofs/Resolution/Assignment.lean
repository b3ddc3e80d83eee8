import Schemata.Proofs.Naming.Registry
import Schemata.Proofs.Outcome
import Schemata.Proofs.Resolution.Shape
import Schemata.Resolution.Assignment

namespace Schemata.Resolution.Assignment

/-! Names of positions. Every step names one position with a name that no other
position has. -/

/-- The registry knows the names that were given, and each was given once. -/
structure Sound (assignment : Assignment) : Prop where
  agrees : assignment.registry.names = assignment.names.map Prod.snd
  distinct : assignment.registry.names.Nodup

theorem sound_empty : empty.Sound :=
  ⟨rfl, List.nodup_nil⟩

structure Gives (assignment : Assignment) (position : Position)
    (location : Location) (name : String) (next : Assignment) : Prop where
  registry : assignment.registry.Gives location name next.registry
  names_eq : next.names = (position, name) :: assignment.names

variable {assignment next : Assignment} {position : Position}
  {location : Location} {name : String} {error : CompileError}

theorem Sound.step (sound : assignment.Sound)
    (gives : assignment.Gives position location name next) : next.Sound := by
  constructor
  · rw [gives.registry.names_eq, gives.names_eq, List.map_cons, sound.agrees]
  · rw [gives.registry.names_eq]
    exact List.nodup_cons.mpr ⟨gives.registry.fresh, sound.distinct⟩

def IsCollision (error : CompileError) : Prop :=
  ∃ location name existing, error = .nameCollision location name existing

/-! Declared names. -/

theorem gives_of_declare {root : String} {schema : Schema}
    (declared : assignment.declare root schema = .ok next) :
    assignment.Gives ⟨root, []⟩ schema.location (typeName root) next := by
  obtain ⟨⟨given, registry⟩, claimed, result⟩ :=
    Outcome.bind_eq_ok_iff.mp declared
  obtain ⟨rfl, gives⟩ := Registry.gives_of_claim claimed
  cases result
  exact ⟨gives, rfl⟩

theorem collision_of_declare {root : String} {schema : Schema}
    (failed : assignment.declare root schema = .error error) :
    IsCollision error := by
  rcases Outcome.bind_eq_error_iff.mp failed with claim | ⟨_, _, result⟩
  · obtain ⟨existing, _, same⟩ := Registry.error_of_claim claim
    exact ⟨_, _, existing, same⟩
  · cases result

theorem declare_of_fresh {root : String} (schema : Schema)
    (fresh : typeName root ∉ assignment.registry.names) :
    ∃ next, assignment.declare root schema = .ok next := by
  refine ⟨_, Outcome.bind_eq_ok_iff.mpr ⟨_, Registry.claim_of_fresh fresh, rfl⟩⟩

def declareAll (assignment : Assignment) (roots : List (String × Schema)) :
    Except CompileError Assignment :=
  roots.foldlM (fun assignment (root, schema) => assignment.declare root schema)
    assignment

def declaredName (root : String × Schema) : Position × String :=
  (⟨root.1, []⟩, typeName root.1)

theorem names_of_declareAll {roots : List (String × Schema)}
    (sound : assignment.Sound)
    (declared : assignment.declareAll roots = .ok next) :
    next.Sound ∧
      next.names = (roots.map declaredName).reverse ++ assignment.names := by
  induction roots generalizing assignment with
  | nil =>
      cases declared
      exact ⟨sound, rfl⟩
  | cons root rest induction =>
      obtain ⟨middle, first, later⟩ := Outcome.bind_eq_ok_iff.mp declared
      have gives := gives_of_declare first
      obtain ⟨nextSound, names⟩ := induction (sound.step gives) later
      refine ⟨nextSound, ?_⟩
      rw [names, gives.names_eq, List.map_cons, List.reverse_cons,
        List.append_assoc]
      rfl

theorem collision_of_declareAll {roots : List (String × Schema)}
    (failed : assignment.declareAll roots = .error error) :
    IsCollision error := by
  induction roots generalizing assignment with
  | nil => cases failed
  | cons root rest induction =>
      rcases Outcome.bind_eq_error_iff.mp failed with first | ⟨_, _, later⟩
      · exact collision_of_declare first
      · exact induction later

theorem declareAll_of_nodup {roots : List (String × Schema)}
    (distinct : (roots.map fun root => typeName root.1).Nodup)
    (fresh : ∀ root ∈ roots, typeName root.1 ∉ assignment.registry.names) :
    ∃ next, assignment.declareAll roots = .ok next := by
  induction roots generalizing assignment with
  | nil => exact ⟨assignment, rfl⟩
  | cons root rest induction =>
      rw [List.map_cons, List.nodup_cons] at distinct
      obtain ⟨middle, first⟩ := declare_of_fresh root.2 (fresh root (by simp))
      have gives := gives_of_declare first
      have restFresh : ∀ other ∈ rest,
          typeName other.1 ∉ middle.registry.names := by
        intro other member
        rw [gives.registry.names_eq, List.mem_cons, not_or]
        refine ⟨fun same => distinct.1 ?_, fresh other (by simp [member])⟩
        exact List.mem_map.mpr ⟨other, member, same⟩
      obtain ⟨next, later⟩ := induction distinct.2 restFresh
      exact ⟨next, Outcome.bind_eq_ok_iff.mpr ⟨middle, first, later⟩⟩

/-! Names made up for anonymous shapes. -/

theorem gives_of_promote {promotion : Promotion}
    (promoted : assignment.promote promotion = .ok next) :
    ∃ name, assignment.Gives promotion.position promotion.location name next := by
  obtain ⟨⟨given, registry⟩, made, result⟩ := Outcome.bind_eq_ok_iff.mp promoted
  cases result
  exact ⟨given, Registry.gives_of_synthesize made, rfl⟩

theorem collision_of_promote {promotion : Promotion}
    (failed : assignment.promote promotion = .error error) :
    IsCollision error := by
  rcases Outcome.bind_eq_error_iff.mp failed with made | ⟨_, _, result⟩
  · obtain ⟨existing, _, same⟩ := Registry.error_of_synthesize made
    exact ⟨_, _, existing, same⟩
  · cases result

theorem promote_of_size_lt (promotion : Promotion)
    (small : assignment.registry.size < Registry.lastSuffix) :
    ∃ next, assignment.promote promotion = .ok next := by
  obtain ⟨name, registry, made⟩ := Registry.synthesize_of_size_lt small
  exact ⟨_, Outcome.bind_eq_ok_iff.mpr ⟨_, made, rfl⟩⟩

def promoteAll (assignment : Assignment)
    (events : List (Except CompileError Promotion)) :
    Except CompileError Assignment :=
  events.foldlM (fun assignment event => do assignment.promote (← event))
    assignment

theorem suffix_of_promoteAll {events : List (Except CompileError Promotion)}
    (promoted : assignment.promoteAll events = .ok next) :
    assignment.names <:+ next.names := by
  induction events generalizing assignment with
  | nil =>
      cases promoted
      exact List.suffix_refl _
  | cons event rest induction =>
      obtain ⟨middle, first, later⟩ := Outcome.bind_eq_ok_iff.mp promoted
      obtain ⟨promotion, rfl, made⟩ := Outcome.bind_eq_ok_iff.mp first
      obtain ⟨name, gives⟩ := gives_of_promote made
      have keeps := induction later
      rw [gives.names_eq] at keeps
      exact (List.suffix_cons _ _).trans keeps

theorem names_of_promoteAll {events : List (Except CompileError Promotion)}
    (sound : assignment.Sound)
    (promoted : assignment.promoteAll events = .ok next) :
    next.Sound ∧ assignment.names <:+ next.names ∧
      next.names.map Prod.fst =
        ((events.filterMap Except.toOption).map (·.position)).reverse ++
          assignment.names.map Prod.fst := by
  refine and_left_comm.mp ⟨suffix_of_promoteAll promoted, ?_⟩
  induction events generalizing assignment with
  | nil =>
      cases promoted
      exact ⟨sound, rfl⟩
  | cons event rest induction =>
      obtain ⟨middle, first, later⟩ := Outcome.bind_eq_ok_iff.mp promoted
      obtain ⟨promotion, rfl, made⟩ := Outcome.bind_eq_ok_iff.mp first
      obtain ⟨name, gives⟩ := gives_of_promote made
      obtain ⟨nextSound, positions⟩ := induction (sound.step gives) later
      refine ⟨nextSound, ?_⟩
      rw [positions, gives.names_eq]
      simp [Except.toOption]

theorem nameOf_of_promoteAll {events : List (Except CompileError Promotion)}
    (promoted : assignment.promoteAll events = .ok next)
    (apart : ∀ promotion, .ok promotion ∈ events → promotion.position ≠ position) :
    next.nameOf position = assignment.nameOf position := by
  induction events generalizing assignment with
  | nil =>
      cases promoted
      rfl
  | cons event rest induction =>
      obtain ⟨middle, first, later⟩ := Outcome.bind_eq_ok_iff.mp promoted
      obtain ⟨promotion, rfl, made⟩ := Outcome.bind_eq_ok_iff.mp first
      obtain ⟨name, gives⟩ := gives_of_promote made
      have other : (position == promotion.position) = false :=
        beq_false_of_ne (apart promotion List.mem_cons_self).symm
      rw [induction later fun promotion member =>
        apart promotion (List.mem_cons_of_mem _ member)]
      rw [nameOf, nameOf, gives.names_eq, List.lookup_cons, other]

theorem clean_of_promoteAll {events : List (Except CompileError Promotion)}
    (promoted : assignment.promoteAll events = .ok next) :
    ∀ error, .error error ∉ events := by
  induction events generalizing assignment with
  | nil => simp
  | cons event rest induction =>
      obtain ⟨middle, first, later⟩ := Outcome.bind_eq_ok_iff.mp promoted
      obtain ⟨promotion, rfl, _⟩ := Outcome.bind_eq_ok_iff.mp first
      intro error member
      exact induction later error (by simpa using member)

theorem error_of_promoteAll {events : List (Except CompileError Promotion)}
    (failed : assignment.promoteAll events = .error error) :
    IsCollision error ∨ .error error ∈ events := by
  induction events generalizing assignment with
  | nil => cases failed
  | cons event rest induction =>
      rcases Outcome.bind_eq_error_iff.mp failed with first | ⟨_, _, later⟩
      · rcases Outcome.bind_eq_error_iff.mp first with reported | ⟨_, _, made⟩
        · exact .inr (reported ▸ List.mem_cons_self)
        · exact .inl (collision_of_promote made)
      · exact (induction later).imp_right (List.mem_cons_of_mem _)

theorem promoteAll_of_clean {events : List (Except CompileError Promotion)}
    (clean : ∀ error, .error error ∉ events)
    (small : assignment.registry.size + events.length ≤ Registry.lastSuffix) :
    ∃ next, assignment.promoteAll events = .ok next := by
  induction events generalizing assignment with
  | nil => exact ⟨assignment, rfl⟩
  | cons event rest induction =>
      rw [List.length_cons] at small
      cases event with
      | error error => exact absurd List.mem_cons_self (clean error)
      | ok promotion =>
          have first : assignment.registry.size < Registry.lastSuffix := by omega
          obtain ⟨middle, made⟩ := promote_of_size_lt promotion first
          obtain ⟨name, gives⟩ := gives_of_promote made
          have restSmall : middle.registry.size + rest.length ≤
              Registry.lastSuffix := by
            rw [gives.registry.size_eq]
            omega
          obtain ⟨next, later⟩ := induction
            (fun error member => clean error (List.mem_cons_of_mem _ member))
            restSmall
          exact ⟨next, Outcome.bind_eq_ok_iff.mpr ⟨middle,
            Outcome.bind_eq_ok_iff.mpr ⟨promotion, rfl, made⟩, later⟩⟩

theorem promoteAll_cons {promotion : Promotion}
    {events : List (Except CompileError Promotion)} :
    assignment.promoteAll (.ok promotion :: events) =
      assignment.promote promotion >>= (·.promoteAll events) :=
  List.foldlM_cons

theorem promoteAll_append {left right : List (Except CompileError Promotion)} :
    assignment.promoteAll (left ++ right) =
      assignment.promoteAll left >>= (·.promoteAll right) :=
  List.foldlM_append

/-! Names that follow a rule. -/

def Follows (rule : Position → String) (names : List (Position × String)) : Prop :=
  ∀ entry ∈ names, entry.2 = rule entry.1

theorem nameOf_of_follows {rule : Position → String}
    (follows : Follows rule assignment.names)
    (named : position ∈ assignment.names.map Prod.fst) :
    assignment.nameOf position = rule position := by
  cases found : assignment.names.lookup position with
  | none => exact absurd named (Entries.lookup_eq_none_iff.mp found)
  | some name =>
      rw [nameOf, found]
      exact follows (position, name) (Entries.mem_of_lookup found)

/-- The name that is tried first for an anonymous shape. -/
def requested (assignment : Assignment) (promotion : Promotion) : String :=
  typeName (assignment.nameOf promotion.owner ++ promotion.way)

theorem requested_of_follows {rule : Position → String} {promotion : Promotion}
    (follows : Follows rule assignment.names)
    (known : promotion.owner ∈ assignment.names.map Prod.fst) :
    assignment.requested promotion =
      typeName (rule promotion.owner ++ promotion.way) := by
  rw [requested, nameOf_of_follows follows known]

theorem promote_eq_ok_iff {promotion : Promotion} :
    assignment.promote promotion = .ok next ↔
      ∃ name registry,
        assignment.registry.synthesize (assignment.requested promotion)
          promotion.location = .ok (name, registry) ∧
        next = ⟨registry, (promotion.position, name) :: assignment.names⟩ := by
  constructor
  · intro promoted
    obtain ⟨⟨name, registry⟩, made, result⟩ := Outcome.bind_eq_ok_iff.mp promoted
    cases result
    exact ⟨name, registry, made, rfl⟩
  · rintro ⟨name, registry, made, rfl⟩
    exact Outcome.bind_eq_ok_iff.mpr ⟨(name, registry), made, rfl⟩

/-! All names of a forest. -/

theorem ofForest_eq_ok_iff {forest : Forest} :
    ofForest forest = .ok next ↔
      ∃ declared, empty.declareAll forest.roots = .ok declared ∧
        declared.promoteAll (promotions forest) = .ok next :=
  Outcome.bind_eq_ok_iff

theorem ofForest_eq_error_iff {forest : Forest} :
    ofForest forest = .error error ↔
      empty.declareAll forest.roots = .error error ∨
        ∃ declared, empty.declareAll forest.roots = .ok declared ∧
          declared.promoteAll (promotions forest) = .error error :=
  Outcome.bind_eq_error_iff

end Schemata.Resolution.Assignment
