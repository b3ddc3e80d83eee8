import Schemata.Proofs.Resolution.Performance

namespace Schemata.Resolution

/-! The resolver does what the walk over the stops does, and what lies in the slots in the
end are the declarations written with the names of the walk. -/

namespace Resolver

variable {forest : Forest} {rule : Position → String} {bound : Nat}
  {resolver middle next : Resolver} {assignment named final : Assignment}
  {stops later : List Stop} {α β γ : Type}

/-! One root. -/

/-- A root that is being visited, and the visits that may still lie inside. -/
structure Ready (forest : Forest) (rule : Position → String) (bound : Nat)
    (resolver : Resolver) (assignment : Assignment) (root : String) : Prop where
  tracks : Tracks forest rule resolver assignment
  bounded : (resolver.pending forest).length ≤ bound
  visited : root ∉ resolver.pending forest

theorem Advances.ready {root : String}
    (advances : Advances forest rule resolver assignment stops next named)
    (ready : Ready forest rule bound resolver assignment root) :
    Ready forest rule bound next named root where
  tracks := advances.tracks
  bounded := Nat.le_trans advances.sublist_pending.length_le ready.bounded
  visited member := ready.visited (advances.sublist_pending.subset member)

theorem Tracks.promote {position : Position} {name : String} {registry : Registry}
    (tracks : Tracks forest rule resolver assignment) (deep : position.path ≠ []) :
    Tracks forest rule { resolver with registry }
      ⟨registry, (position, name) :: assignment.names⟩ where
  registry := rfl
  declared root member := by
    have other : ((⟨root.1, []⟩ : Position) == position) = false := by
      refine beq_false_of_ne ?_
      rintro rfl
      exact deep rfl
    rw [List.lookup_cons, other]
    exact tracks.declared root member
  settled follows := tracks.settled fun entry member =>
    follows entry (List.mem_cons_of_mem _ member)

theorem synthesize_apply (context : String) (location : Location) (resolver : Resolver) :
    synthesize context location resolver =
      (resolver.registry.synthesize (typeName context) location).map
        fun made => (made.1, { resolver with registry := made.2 }) := by
  change ((resolver.registry.synthesize (typeName context) location >>= fun made =>
      Except.ok (made, resolver)) >>= fun pair =>
        Except.ok (pair.1.1, { resolver with registry := pair.1.2 })) = _
  cases resolver.registry.synthesize (typeName context) location <;> rfl

/-- A shape gets its name, and then the shapes inside it get theirs. -/
theorem performs_promote {promotion : Promotion} {context : String}
    {onward : String → Run α} (finish : String → α)
    (tracks : Tracks forest rule resolver assignment)
    (deep : promotion.position.path ≠ [])
    (context_eq : context = assignment.nameOf promotion.owner ++ promotion.way)
    (second : ∀ name middle named,
      Advances forest rule resolver assignment [.promotion promotion] middle named →
      name = named.nameOf promotion.position →
      Performs forest rule middle named later (finish name) (onward name middle)) :
    Performs forest rule resolver assignment (.promotion promotion :: later)
      (finish (rule promotion.position))
      ((synthesize context promotion.location >>= onward) resolver) := by
  have visits : Visits forest (resolver.pending forest) [.promotion promotion] []
      [.ok promotion] := .promotion .done
  change Performs _ _ _ _ _ _ (synthesize context promotion.location resolver >>=
    fun made => onward made.1 made.2)
  rw [synthesize_apply, context_eq, tracks.registry]
  cases made : assignment.registry.synthesize
      (typeName (assignment.nameOf promotion.owner ++ promotion.way)) promotion.location with
  | error error =>
      have failed : assignment.promote promotion = .error error := by
        rw [Assignment.promote, made]
        rfl
      obtain ⟨entered, events, longer⟩ := visits.exists_append later
      refine .error longer ?_
      rw [Assignment.promoteAll_append, Assignment.promoteAll_cons, failed]
      rfl
  | ok pair =>
      obtain ⟨name, registry⟩ := pair
      have promoted : assignment.promote promotion =
          .ok ⟨registry, (promotion.position, name) :: assignment.names⟩ :=
        Assignment.promote_eq_ok_iff.mpr ⟨name, registry, made, rfl⟩
      have advances : Advances forest rule resolver assignment [.promotion promotion]
          { resolver with registry }
          ⟨registry, (promotion.position, name) :: assignment.names⟩ :=
        ⟨tracks.promote deep, [], [.ok promotion], visits,
          by rw [Assignment.promoteAll_cons, promoted]; rfl, fun _ => rfl⟩
      have own : name = Assignment.nameOf
          ⟨registry, (promotion.position, name) :: assignment.names⟩ promotion.position := by
        rw [Assignment.nameOf, List.lookup_cons_self, Option.getD_some]
      have onwards := (second name _ _ advances own).congr fun kept =>
        congrArg finish (kept _ List.mem_cons_self)
      exact Performs.of_advances advances onwards

/-- What a visit of a root does, as long as at most so many roots have not been visited. -/
def IsVisit (forest : Forest) (rule : Position → String) (bound : Nat)
    (visit : String → Schema → Run Unit) : Prop :=
  ∀ (resolver : Resolver) (assignment : Assignment) (root : String) (schema : Schema)
    (location : Location), Tracks forest rule resolver assignment →
    (resolver.pending forest).length ≤ bound → forest.roots.lookup root = some schema →
    Performs forest rule resolver assignment [.reference root location] ()
      (visit root schema resolver)

section

variable {visit : String → Schema → Run Unit} {root : String}

theorem performs_reference (isVisit : IsVisit forest rule bound visit)
    (ready : Ready forest rule bound resolver assignment root)
    (target : String) (location : Location) :
    Performs forest rule resolver assignment [.reference target location]
      (.named (typeName target)) (reference forest visit target location resolver) := by
  unfold reference
  cases found : forest.roots.lookup target with
  | none => exact .error (.unresolved found) rfl
  | some schema =>
      have visited := isVisit resolver assignment target schema location ready.tracks
        ready.bounded found
      exact visited.map fun _ => TypeRef.named (typeName target)

mutual
theorem performs_inline (isVisit : IsVisit forest rule bound visit) {resolver : Resolver}
    {assignment : Assignment} : (owner : Position) → (way context : String) →
    (position : Position) → (schema : Schema) → position.path ≠ [] →
    context = assignment.nameOf owner ++ way →
    Ready forest rule bound resolver assignment position.root →
    Performs forest rule resolver assignment (inlineStops owner way position schema)
      (inlineType rule position schema) (inline forest visit context schema resolver)
  | _, _, _, _, .reference info target, _, _, ready =>
      (performs_reference isVisit ready target info.location).map Declared.alone
  | _, _, _, _, .primitive .., _, _, ready | _, _, _, _, .untypedMap _, _, _, ready =>
      .ok (.refl ready.tracks) fun _ => rfl
  | owner, way, context, position, .array _ items, _, context_eq, ready => by
      have element := performs_inline isVisit owner (way ++ itemWay) (context ++ itemWay)
        (position.child 0) items position.path_child_ne_nil
        (by rw [context_eq, String.append_assoc]) ready
      exact element.map (Declared.map fun type => TypeRef.array (elementType items type))
  | owner, way, context, position, .map _ values, _, context_eq, ready => by
      have value := performs_inline isVisit owner (way ++ valueWay) (context ++ valueWay)
        (position.child 0) values position.path_child_ne_nil
        (by rw [context_eq, String.append_assoc]) ready
      exact value.map (Declared.map fun type => TypeRef.map (elementType values type))
  | _, _, _, _, .enum info values, deep, context_eq, ready => by
      refine performs_promote
        (fun name => promoteAs name (.enum info values) (.alone (.enum values)))
        ready.tracks deep context_eq fun name middle named advances _ => ?_
      exact .ok (.refl advances.tracks) fun _ => rfl
  | _, _, _, position, .object info properties, deep, context_eq, ready => by
      refine performs_promote (fun name => promoteAs name (.object info properties)
        ((fieldsOf rule position 0 properties).map .object))
        ready.tracks deep context_eq fun name middle named advances own => ?_
      have inner := performs_fields isVisit name position 0 properties own
        (advances.ready ready)
      exact inner.map fun inner =>
        promoteAs name (.object info properties) (inner.map .object)
  | _, _, _, position, .union info members, deep, context_eq, ready => by
      refine performs_promote (fun name => promoteAs name (.union info members)
        ((variantTypes rule position 0 members).map .union))
        ready.tracks deep context_eq fun name middle named advances own => ?_
      have inner := performs_variants isVisit name position 0 members own
        (advances.ready ready)
      exact inner.map fun inner =>
        promoteAs name (.union info members) (inner.map .union)

theorem performs_fields (isVisit : IsVisit forest rule bound visit) {resolver : Resolver}
    {assignment : Assignment} : (name : String) → (owner : Position) → (index : Nat) →
    (properties : List (Property Schema)) → name = assignment.nameOf owner →
    Ready forest rule bound resolver assignment owner.root →
    Performs forest rule resolver assignment (propertyStops owner index properties)
      (fieldsOf rule owner index properties) (fields forest visit name properties resolver)
  | _, _, _, [], _, ready => .ok (.refl ready.tracks) fun _ => rfl
  | name, owner, index, ⟨field, required, schema⟩ :: rest, name_eq, ready => by
      have first := performs_inline isVisit owner (Text.pascalCase field)
        (name ++ Text.pascalCase field) (owner.child index) schema owner.path_child_ne_nil
        (by rw [name_eq]) ready
      refine first.combine (Declared.combine fun type later =>
        fieldOf ⟨field, required, schema⟩ type :: later) fun middle named advances => ?_
      have kept := advances.nameOf_eq ready.visited fun _ => ne_owner_of_promotion
      exact performs_fields isVisit name owner (index + 1) rest (name_eq.trans kept.symm)
        (advances.ready ready)

theorem performs_variants (isVisit : IsVisit forest rule bound visit) {resolver : Resolver}
    {assignment : Assignment} : (name : String) → (owner : Position) → (index : Nat) →
    (members : List Schema) → name = assignment.nameOf owner →
    Ready forest rule bound resolver assignment owner.root →
    Performs forest rule resolver assignment (variantStops owner index members)
      (variantTypes rule owner index members)
      (variants forest visit name index members resolver)
  | _, _, _, [], _, ready => .ok (.refl ready.tracks) fun _ => rfl
  | name, owner, index, variant :: rest, name_eq, ready => by
      have first := performs_inline isVisit owner (variantWay index)
        (name ++ variantWay index) (owner.child index) variant owner.path_child_ne_nil
        (by rw [name_eq]) ready
      refine first.combine (Declared.combine fun type later =>
        elementType variant type :: later) fun middle named advances => ?_
      have kept := advances.nameOf_eq ready.visited fun _ => ne_owner_of_promotion
      exact performs_variants isVisit name owner (index + 1) rest (name_eq.trans kept.symm)
        (advances.ready ready)
end

theorem performs_definition (isVisit : IsVisit forest rule bound visit) {name : String}
    (position : Position) (schema : Schema) (name_eq : name = assignment.nameOf position)
    (ready : Ready forest rule bound resolver assignment position.root) :
    Performs forest rule resolver assignment (definitionStops position schema)
      (definitionOf rule position schema)
      (definition forest visit name schema resolver) := by
  cases schema with
  | reference info target =>
      have type := performs_reference isVisit ready target info.location
      exact type.map fun type => Declared.alone (Definition.reference type)
  | primitive | untypedMap | enum => exact .ok (.refl ready.tracks) fun _ => rfl
  | array _ items =>
      have element := performs_inline isVisit position itemWay (name ++ itemWay)
        (position.child 0) items position.path_child_ne_nil (by rw [name_eq]) ready
      exact element.map (Declared.map fun type => Definition.array (elementType items type))
  | map _ values =>
      have value := performs_inline isVisit position valueWay (name ++ valueWay)
        (position.child 0) values position.path_child_ne_nil (by rw [name_eq]) ready
      exact value.map (Declared.map fun type => Definition.map (elementType values type))
  | object _ properties =>
      have inner := performs_fields isVisit name position 0 properties name_eq ready
      exact inner.map (Declared.map Definition.object)
  | union _ members =>
      have inner := performs_variants isVisit name position 0 members name_eq ready
      exact inner.map (Declared.map Definition.union)

/-- A root that is a reference is checked before the reference is followed. -/
theorem performs_rootDefinition (isVisit : IsVisit forest rule bound visit)
    (schema : Schema) (name_eq : typeName root = assignment.nameOf ⟨root, []⟩)
    (ready : Ready forest rule bound resolver assignment root) :
    Performs forest rule resolver assignment (rootStops forest root schema)
      (definitionOf rule ⟨root, []⟩ schema)
      (rootDefinition forest visit root schema resolver) := by
  have made := performs_definition isVisit ⟨root, []⟩ schema name_eq ready
  unfold rootDefinition
  cases schema with
  | reference info target =>
      simp only [rootStops, checkAlias]
      cases aliasCycle? forest (forest.roots.length + 1) [] root with
      | none => exact made
      | some again => exact .error .failure rfl
  | primitive | enum | object | array | map | untypedMap | union => exact made

end

theorem mem_pending {root : String} :
    root ∈ resolver.pending forest ↔
      root ∈ forest.roots.map Prod.fst ∧ resolver.states root = .pending := by
  simp only [pending, List.mem_filter, decide_eq_true_eq]

theorem Tracks.enter (tracks : Tracks forest rule resolver assignment) (root : String) :
    Tracks forest rule (resolver.enter root) assignment where
  registry := tracks.registry
  declared := tracks.declared
  settled follows other member done := by
    simp only [Resolver.enter] at done
    split at done
    · cases done
    · exact tracks.settled follows other member done

/-- A root that is done has been written with the name under which it was claimed. -/
theorem Tracks.finish {root : String} {schema : Schema} {made : Declared Definition}
    (tracks : Tracks forest rule resolver assignment)
    (found : forest.roots.lookup root = some schema)
    (made_eq : Assignment.Follows rule assignment.names →
      made = definitionOf rule ⟨root, []⟩ schema) :
    Tracks forest rule (resolver.finish root (declareAs (typeName root) schema made))
      assignment where
  registry := tracks.registry
  declared := tracks.declared
  settled follows other member done := by
    by_cases same : other.1 = root
    · have own := lookup_eq_some_iff.mpr member
      rw [same, found] at own
      have declared := Entries.mem_of_lookup (tracks.declared other member)
      have name : typeName other.1 = rule ⟨other.1, []⟩ := follows _ declared
      rw [← Option.some.inj own, same, block, ← made_eq follows, ← same, ← name]
      exact if_pos rfl
    · simp only [Resolver.finish, if_neg same] at done ⊢
      exact tracks.settled follows other member done

theorem visitRoot_of_visited {root : String} (schema : Schema)
    (visited : resolver.states root ≠ .pending) :
    visitRoot forest bound root schema resolver = .ok ((), resolver) := by
  cases bound with
  | zero => rfl
  | succ =>
      change (if resolver.states root = .pending then (_ : Run Unit) else _) resolver = _
      rw [if_neg visited]
      rfl

theorem visitRoot_of_pending {root : String} (schema : Schema)
    (pending : resolver.states root = .pending) :
    visitRoot forest (bound + 1) root schema resolver =
      (rootDefinition forest (visitRoot forest bound) root schema (resolver.enter root)).map
        fun made => ((), made.2.finish root (declareAs (typeName root) schema made.1)) := by
  change (if resolver.states root = .pending then (_ : Run Unit) else _) resolver = _
  rw [if_pos pending]
  change (rootDefinition forest (visitRoot forest bound) root schema (resolver.enter root)
    >>= _) = _
  cases rootDefinition forest (visitRoot forest bound) root schema (resolver.enter root) <;>
    rfl

theorem isVisit_visitRoot (forest : Forest) (rule : Position → String) (bound : Nat) :
    IsVisit forest rule bound (visitRoot forest bound) := by
  induction bound with
  | zero =>
      intro resolver assignment root schema location tracks bounded found
      have none_left : resolver.pending forest = [] :=
        List.length_eq_zero_iff.mp (Nat.le_zero.mp bounded)
      refine .ok ⟨tracks, [], [], .skip found ?_ .done, rfl, fun _ => rfl⟩ fun _ => rfl
      rw [none_left]
      exact List.not_mem_nil
  | succ bound induction =>
      intro resolver assignment root schema location tracks bounded found
      have member := lookup_eq_some_iff.mp found
      by_cases fresh : root ∈ resolver.pending forest
      · rw [visitRoot_of_pending schema (mem_pending.mp fresh).2]
        have ready : Ready forest rule bound (resolver.enter root) assignment root := by
          refine ⟨tracks.enter root, ?_, ?_⟩ <;> rw [pending_enter]
          · rw [List.length_erase_of_mem fresh]
            omega
          · exact nodup_pending.not_mem_erase
        have name : typeName root = assignment.nameOf ⟨root, []⟩ := by
          rw [Assignment.nameOf, tracks.declared _ member, Option.getD_some]
        have body := performs_rootDefinition induction schema name ready
        generalize rootDefinition forest (visitRoot forest bound) root schema
          (resolver.enter root) = outcome at body
        rw [← List.append_nil (rootStops forest root schema)] at body
        cases body with
        | error visits failed =>
            rw [pending_enter] at visits
            exact .error (.enter found fresh visits) failed
        | ok advances value_eq =>
            obtain ⟨entered, events, visits, promoted, states⟩ := advances.run
            rw [pending_enter] at visits
            refine .ok ⟨advances.tracks.finish found value_eq, root :: entered, events,
              .enter found fresh visits, promoted, fun other => ?_⟩ fun _ => rfl
            simp only [finish, enter, List.mem_cons, states]
            by_cases same : other = root <;> simp [same]
      · have visited : resolver.states root ≠ .pending := fun pending =>
          fresh (mem_pending.mpr ⟨List.mem_map_of_mem member, pending⟩)
        rw [visitRoot_of_visited schema visited]
        exact .ok ⟨tracks, [], [], .skip found fresh .done, rfl, fun _ => rfl⟩ fun _ => rfl

/-! All roots. -/

theorem performs_roots {roots : List (String × Schema)} (known : roots ⊆ forest.roots)
    (tracks : Tracks forest rule resolver assignment)
    (bounded : (resolver.pending forest).length ≤ bound) :
    Performs forest rule resolver assignment (roots.map rootStop) ()
      (roots.forM (fun root => visitRoot forest bound root.1 root.2) resolver) := by
  induction roots generalizing resolver assignment with
  | nil => exact .ok (.refl tracks) fun _ => rfl
  | cons root rest induction =>
      obtain ⟨here, later⟩ := List.cons_subset.mp known
      have first := isVisit_visitRoot forest rule bound resolver assignment root.1 root.2
        root.2.location tracks bounded (lookup_eq_some_iff.mpr here)
      refine first.bind (fun _ => ()) fun _ middle named advances => ?_
      exact induction later advances.tracks
        (Nat.le_trans advances.sublist_pending.length_le bounded)

theorem claimAll_eq (forest : Forest) :
    claimAll forest =
      (Assignment.empty.declareAll forest.roots).map (·.registry) := by
  suffices general : ∀ (roots : List (String × Schema)) (assignment : Assignment),
      roots.foldlM claimRoot assignment.registry =
        (assignment.declareAll roots).map (·.registry) from
    general forest.roots .empty
  intro roots
  induction roots with
  | nil => intro assignment; rfl
  | cons root rest induction =>
      intro assignment
      rw [List.foldlM_cons, Assignment.declareAll, List.foldlM_cons]
      simp only [claimRoot, Assignment.declare]
      cases assignment.registry.claim (typeName root.1) root.2.location with
      | error => rfl
      | ok claimed => exact induction ⟨claimed.2, (⟨root.1, []⟩, claimed.1) :: assignment.names⟩

theorem tracks_start {declared : Assignment}
    (declares : Assignment.empty.declareAll forest.roots = .ok declared) :
    Tracks forest rule (start declared.registry) declared where
  registry := rfl
  declared root member := by
    obtain ⟨-, names⟩ := Assignment.names_of_declareAll Assignment.sound_empty declares
    rw [Assignment.empty, List.append_nil] at names
    have keys : (declared.names.map Prod.fst).Nodup := by
      rw [names, List.map_reverse, List.nodup_reverse, List.map_map]
      have distinct := forest.distinct.map (f := fun key => (⟨key, []⟩ : Position))
        fun _ _ same => congrArg Position.root same
      rwa [List.map_map] at distinct
    refine (Entries.lookup_eq_some_iff keys).mpr ?_
    rw [names]
    exact List.mem_reverse.mpr (List.mem_map.mpr ⟨root, member, rfl⟩)
  settled _ _ _ done := by cases done

theorem pending_start (forest : Forest) (registry : Registry) :
    (start registry).pending forest = forest.roots.map Prod.fst :=
  List.filter_eq_self.mpr fun _ _ => rfl

theorem performs_all {declared : Assignment}
    (declares : Assignment.empty.declareAll forest.roots = .ok declared)
    (rule : Position → String) :
    Performs forest rule (start declared.registry) declared (forest.roots.map rootStop) ()
      (visitAll forest (start declared.registry)) :=
  performs_roots (List.Subset.refl _) (tracks_start declares)
    (by simp only [pending_start, List.length_map, Nat.le_refl])

/-- Every root is done in the end. -/
theorem Advances.complete {registry : Registry}
    (advances : Advances forest rule (start registry) assignment
      (forest.roots.map rootStop) next named) :
    assignment.promoteAll (promotions forest) = .ok named ∧
      ∀ root ∈ forest.roots, next.states root.1 = .done := by
  obtain ⟨entered, events, visits, promoted, states⟩ := advances.run
  obtain ⟨walked, walk⟩ := visits_promotions forest
  rw [pending_start] at visits
  obtain ⟨rfl, rfl⟩ := visits.unique walk
  refine ⟨promoted, fun root member => ?_⟩
  have everywhere := entered_perm walk (Assignment.clean_of_promoteAll promoted)
  rw [states, if_pos (everywhere.mem_iff.mpr (List.mem_map_of_mem member))]

/-- The slots hold the declarations that are written with the names of the walk. -/
theorem slots_agree {declared : Assignment}
    (declares : Assignment.empty.declareAll forest.roots = .ok declared) :
    Outcome.Agree
      (fun made named => ∀ root ∈ forest.roots,
        made.2.slots root.1 = block named.nameOf root.1 root.2)
      (visitAll forest (start declared.registry))
      (declared.promoteAll (promotions forest)) := by
  have performs := performs_all declares
  cases ended : visitAll forest (start declared.registry) with
  | error error =>
      have failed := performs fun _ => ""
      rw [ended] at failed
      cases failed with
      | error visits failed =>
          obtain ⟨entered, walk⟩ := visits_promotions forest
          rw [pending_start] at visits
          obtain ⟨rfl, rfl⟩ := visits.unique walk
          rw [failed]
          exact .error error
  | ok made =>
      have succeeds := performs fun _ => ""
      rw [ended] at succeeds
      cases succeeds with
      | @ok _ next named advances _ =>
          have promotes := advances.complete.1
          have assigned := Assignment.ofForest_eq_ok_iff.mpr ⟨declared, declares, promotes⟩
          -- The names are known now, and with them the rule that they follow.
          have written := performs named.nameOf
          rw [ended] at written
          cases written with
          | @ok _ _ same again _ =>
              obtain ⟨promoted, done⟩ := again.complete
              obtain rfl := Except.ok.inj (promotes.symm.trans promoted)
              rw [promotes]
              exact .ok fun root member => again.tracks.settled
                (named_of_ofForest assigned).follows_nameOf root member (done root member)

end Resolver

/-- The declarations that the resolver leaves in the slots are those of two passes: all
names are given in the order of the walk, and then every root is written with them. -/
theorem declarations_eq (forest : Forest) :
    declarations forest = do
      let assignment ← Assignment.ofForest forest
      return forest.roots.flatMap fun root => block assignment.nameOf root.1 root.2 := by
  rw [declarations, Resolver.claimAll_eq]
  change _ = (Assignment.empty.declareAll forest.roots >>= fun declared =>
    declared.promoteAll (promotions forest)) >>= _
  cases declares : Assignment.empty.declareAll forest.roots with
  | error error => rfl
  | ok declared =>
      have agree := Resolver.slots_agree declares
      change (Resolver.visitAll forest (.start declared.registry) >>= _) =
        declared.promoteAll (promotions forest) >>= _
      generalize Resolver.visitAll forest (.start declared.registry) = made at agree
      generalize declared.promoteAll (promotions forest) = outcome at agree
      cases agree with
      | error error => rfl
      | ok related => exact congrArg Except.ok (List.flatMap_congr related)

end Schemata.Resolution
