import Schemata.Proofs.Resolution.Ownership
import Schemata.Proofs.Resolution.Precedence
import Schemata.Proofs.Resolution.WellFormed

namespace Schemata

/-! The order of the roots decides the order of the declarations only, as long as no
made-up name gets a number. Such a name follows from the name of its owner, whenever
the walk comes to it. -/

namespace Resolution

namespace Assignment

/-- No promotion of a run finds the name that it tries first in use. -/
def PromotesFreely (assignment : Assignment) :
    List (Except CompileError Promotion) → Prop
  | .ok promotion :: rest =>
      assignment.requested promotion ∉ assignment.registry.names ∧
        match assignment.promote promotion with
        | .ok next => next.PromotesFreely rest
        | .error _ => True
  | _ => True

instance decidablePromotesFreely : (assignment : Assignment) →
    (events : List (Except CompileError Promotion)) →
    Decidable (assignment.PromotesFreely events)
  | _, [] | _, .error _ :: _ => .isTrue trivial
  | assignment, .ok promotion :: rest =>
      match made : assignment.promote promotion with
      | .ok next =>
          have := decidablePromotesFreely next rest
          decidable_of_iff
            (assignment.requested promotion ∉ assignment.registry.names ∧
              next.PromotesFreely rest) (by rw [PromotesFreely, made])
      | .error _ =>
          decidable_of_iff
            (assignment.requested promotion ∉ assignment.registry.names)
            (by rw [PromotesFreely, made, and_true])

/-- The name of a shape is what its way from the owner makes of the owner's name. -/
def Derived (rule : Position → String) (promotion : Promotion) : Prop :=
  rule promotion.position = typeName (rule promotion.owner ++ promotion.way)

variable {assignment next : Assignment} {rule : Position → String}
  {promotion : Promotion} {events : List (Except CompileError Promotion)}

/-! A run without numbers gives derived names. -/

theorem derived_of_promote
    (free : assignment.requested promotion ∉ assignment.registry.names)
    (follows : Follows rule next.names)
    (known : promotion.owner ∈ assignment.names.map Prod.fst)
    (promoted : assignment.promote promotion = .ok next) :
    Derived rule promotion := by
  obtain ⟨name, registry, made, rfl⟩ := promote_eq_ok_iff.mp promoted
  rw [Registry.synthesize_of_fresh free] at made
  obtain ⟨given, -⟩ := Prod.mk.inj (Except.ok.inj made)
  have own := follows (promotion.position, name) List.mem_cons_self
  have earlier : Follows rule assignment.names := fun entry member =>
    follows entry (List.mem_cons_of_mem _ member)
  rw [Derived, ← own, ← given, requested_of_follows earlier known]

theorem derived_of_promotesFreely (sound : assignment.Sound)
    (free : assignment.PromotesFreely events)
    (follows : Follows rule next.names)
    (led : Led (assignment.names.map Prod.fst)
      (events.filterMap Except.toOption))
    (promoted : assignment.promoteAll events = .ok next) :
    ∀ promotion, .ok promotion ∈ events → Derived rule promotion := by
  induction events generalizing assignment with
  | nil => exact fun _ member => absurd member List.not_mem_nil
  | cons event rest induction =>
      obtain ⟨middle, first, later⟩ := Outcome.bind_eq_ok_iff.mp promoted
      obtain ⟨promotion, rfl, made⟩ := Outcome.bind_eq_ok_iff.mp first
      obtain ⟨name, gives⟩ := gives_of_promote made
      have middleSound := sound.step gives
      obtain ⟨-, keeps, -⟩ := names_of_promoteAll middleSound later
      obtain ⟨unused, restFree⟩ := free
      rw [made] at restFree
      have middleLed : Led (middle.names.map Prod.fst)
          (rest.filterMap Except.toOption) := by
        rw [gives.names_eq]
        exact led.2
      intro other member
      rcases List.mem_cons.mp member with same | member
      · cases same
        have middleFollows : Follows rule middle.names := fun entry given =>
          follows entry (keeps.subset given)
        exact derived_of_promote unused middleFollows led.1 made
      · exact induction middleSound restFree middleLed later other member

/-! Derived names, each for one position only, are found free in every order in which
the owners come first. -/

theorem promote_of_derived (follows : Follows rule assignment.names)
    (derived : Derived rule promotion)
    (known : promotion.owner ∈ assignment.names.map Prod.fst)
    (fresh : rule promotion.position ∉ assignment.registry.names) :
    ∃ next, assignment.promote promotion = .ok next ∧
      assignment.Gives promotion.position promotion.location
        (rule promotion.position) next := by
  have request := (requested_of_follows follows known).trans derived.symm
  have made : assignment.registry.synthesize _ promotion.location = _ :=
    Registry.synthesize_of_fresh fresh
  rw [← request] at made
  refine ⟨_, promote_eq_ok_iff.mpr ⟨_, _, made, rfl⟩, ?_⟩
  rw [← request]
  exact ⟨Registry.gives_of_synthesize made, rfl⟩

theorem promoteAll_of_derived (sound : assignment.Sound)
    (follows : Follows rule assignment.names)
    (led : Led (assignment.names.map Prod.fst)
      (events.filterMap Except.toOption))
    (clean : ∀ error, .error error ∉ events)
    (derived : ∀ promotion, .ok promotion ∈ events → Derived rule promotion)
    (distinct : (((events.filterMap Except.toOption).map (·.position) ++
      assignment.names.map Prod.fst).map rule).Nodup) :
    ∃ next, assignment.promoteAll events = .ok next ∧
      Follows rule next.names := by
  induction events generalizing assignment with
  | nil => exact ⟨assignment, rfl, follows⟩
  | cons event rest induction =>
      cases event with
      | error error => exact absurd List.mem_cons_self (clean error)
      | ok promotion =>
          have known : assignment.registry.names =
              (assignment.names.map Prod.fst).map rule := by
            rw [sound.agrees, List.map_map]
            exact List.map_congr_left follows
          have split : (rule promotion.position ::
              ((rest.filterMap Except.toOption).map (·.position)).map rule ++
                assignment.registry.names).Nodup := by
            rw [known, List.cons_append, ← List.map_append, ← List.map_cons]
            exact distinct
          obtain ⟨fresh, -⟩ := List.nodup_cons.mp split
          obtain ⟨middle, made, gives⟩ := promote_of_derived follows
            (derived promotion List.mem_cons_self) led.1
            (fun used => fresh (List.mem_append_right _ used))
          obtain ⟨next, later, result⟩ := induction (sound.step gives)
            (by
              rw [gives.names_eq]
              exact List.forall_mem_cons.mpr ⟨rfl, follows⟩)
            (by
              rw [gives.names_eq]
              exact led.2)
            (fun error member => clean error (List.mem_cons_of_mem _ member))
            (fun other member => derived other (List.mem_cons_of_mem _ member))
            (by
              rw [gives.names_eq, List.map_cons]
              exact (List.perm_middle.map rule).nodup_iff.mpr distinct)
          exact ⟨next, Outcome.bind_eq_ok_iff.mpr ⟨middle,
            Outcome.bind_eq_ok_iff.mpr ⟨promotion, rfl, made⟩, later⟩, result⟩

end Assignment

end Resolution

/-- No name that is made up in the run over the forest gets a number. -/
def Forest.NamesFreely (forest : Forest) : Prop :=
  match Resolution.Assignment.empty.declareAll forest.roots with
  | .ok declared => declared.PromotesFreely (Resolution.promotions forest)
  | .error _ => True

instance (forest : Forest) : Decidable forest.NamesFreely := by
  unfold Forest.NamesFreely
  split <;> infer_instance

namespace Resolution

variable {forest permuted : Forest}

/-! The forests are the same but for the order. -/

theorem alias_of_reordered (reordered : permuted.roots.Perm forest.roots)
    {root target : String} (alias_ : permuted.Alias root target) :
    forest.Alias root target := by
  obtain ⟨info, declared⟩ := alias_
  exact ⟨info, reordered.mem_iff.mp declared⟩

theorem wellFormed_of_reordered (reordered : permuted.roots.Perm forest.roots)
    (wellFormed : forest.WellFormed) : permuted.WellFormed where
  names_distinct :=
    (reordered.map _).nodup_iff.mpr wellFormed.names_distinct
  references := by
    intro root declared info target member
    have named := wellFormed.references root (reordered.mem_iff.mp declared) info
      target member
    exact (reordered.map Prod.fst).mem_iff.mpr named
  no_alias_cycle := fun root cycle => wellFormed.no_alias_cycle root
    (Relation.TransGen.mono
      (fun _ _ alias_ => alias_of_reordered reordered alias_) root root cycle)

theorem perm_promotions_of_reordered
    (reordered : permuted.roots.Perm forest.roots)
    (clean : ∀ error, .error error ∉ promotions forest)
    (permutedClean : ∀ error, .error error ∉ promotions permuted) :
    ((promotions permuted).filterMap Except.toOption).Perm
      ((promotions forest).filterMap Except.toOption) :=
  (perm_promotions_roots permutedClean).trans
    ((reordered.flatMap_right _).trans (perm_promotions_roots clean).symm)

theorem ok_mem_of_reordered (reordered : permuted.roots.Perm forest.roots)
    (clean : ∀ error, .error error ∉ promotions forest)
    (permutedClean : ∀ error, .error error ∉ promotions permuted)
    {promotion : Promotion} (member : .ok promotion ∈ promotions permuted) :
    .ok promotion ∈ promotions forest := by
  have among : promotion ∈ (promotions permuted).filterMap Except.toOption :=
    List.mem_filterMap.mpr ⟨.ok promotion, member, rfl⟩
  have met := (perm_promotions_of_reordered reordered clean permutedClean).mem_iff.mp
    among
  obtain ⟨event, reported, read⟩ := List.mem_filterMap.mp met
  cases event with
  | error error => cases read
  | ok other => exact Option.some.inj read ▸ reported

open Assignment

theorem derived_of_namesFreely {assignment : Assignment}
    (assigned : ofForest forest = .ok assignment) (free : forest.NamesFreely) :
    ∀ promotion, .ok promotion ∈ promotions forest →
      Derived assignment.nameOf promotion := by
  obtain ⟨declared, declares, promotes⟩ := ofForest_eq_ok_iff.mp assigned
  obtain ⟨sound, -⟩ := names_of_declareAll sound_empty declares
  rw [Forest.NamesFreely, declares] at free
  exact derived_of_promotesFreely sound free
    (named_of_ofForest assigned).follows_nameOf (led_of_declareAll declares) promotes

/-- The same names in another order of the roots. -/
theorem assigned_of_reordered {assignment : Assignment}
    (reordered : permuted.roots.Perm forest.roots)
    (wellFormed : forest.WellFormed)
    (assigned : ofForest forest = .ok assignment) (free : forest.NamesFreely) :
    ∃ permutedAssignment, ofForest permuted = .ok permutedAssignment ∧
      Follows assignment.nameOf permutedAssignment.names := by
  obtain ⟨_, _, promotes⟩ := ofForest_eq_ok_iff.mp assigned
  have clean := clean_of_promoteAll promotes
  have permutedWellFormed := wellFormed_of_reordered reordered wellFormed
  have permutedClean : ∀ error, .error error ∉ promotions permuted :=
    fun error reported =>
      not_truthful_of_wellFormed permutedWellFormed (truthful_of_error reported)
  have named := named_of_ofForest assigned
  obtain ⟨declared, declares⟩ : ∃ declared,
      Assignment.empty.declareAll permuted.roots = .ok declared :=
    declareAll_of_nodup permutedWellFormed.names_distinct
      (fun _ _ => List.not_mem_nil)
  obtain ⟨sound, names⟩ := names_of_declareAll sound_empty declares
  have follows : Follows assignment.nameOf declared.names := by
    intro entry given
    rw [names, Assignment.empty, List.append_nil, List.mem_reverse] at given
    obtain ⟨root, member, rfl⟩ := List.mem_map.mp given
    have declaredBefore : root.1 ∈ forest.roots.map Prod.fst :=
      List.mem_map_of_mem (reordered.mem_iff.mp member)
    simp only [declaredName, named.nameOf_root declaredBefore]
  have distinct : (((((promotions permuted).filterMap Except.toOption).map
      (·.position)) ++ declared.names.map Prod.fst).map
        assignment.nameOf).Nodup := by
    have all := (perm_promoted_declared permutedClean declares).trans
      (reordered.flatMap_right _)
    exact (all.map _).nodup_iff.mpr named.nodup_names
  obtain ⟨next, promoted, result⟩ := promoteAll_of_derived sound follows
    (led_of_declareAll declares) permutedClean
    (fun promotion member => derived_of_namesFreely assigned free promotion
      (ok_mem_of_reordered reordered clean permutedClean member)) distinct
  exact ⟨next, ofForest_eq_ok_iff.mpr ⟨declared, declares, promoted⟩, result⟩

end Resolution

/-- Without numbers after names, another order of the roots gives the same blocks of
declarations in the other order. -/
theorem reordered_roots_reorder_blocks {forest permuted : Forest} {model : Model}
    (reordered : permuted.roots.Perm forest.roots)
    (succeeds : forest.resolve = .ok model) (free : forest.NamesFreely) :
    ∃ permutedModel, permuted.resolve = .ok permutedModel ∧
      permutedModel.declarations.Perm model.declarations ∧
      ∃ block : String × Schema → List Declaration,
        model.declarations = forest.roots.flatMap block ∧
        permutedModel.declarations = permuted.roots.flatMap block ∧
        ∀ root ∈ forest.roots, ∃ promoted own,
          block root = promoted ++ [own] ∧
          model.IsBlock forest root promoted own := by
  obtain ⟨assignment, assigned, resolved⟩ := Resolution.assigned_of_ok succeeds
  obtain ⟨permutedAssignment, permutedAssigned, follows⟩ :=
    Resolution.assigned_of_reordered reordered
      (Resolution.wellFormed_of_ok succeeds) assigned free
  obtain ⟨permutedModel, permutedSucceeds, permutedResolved⟩ :=
    Resolution.resolve_of_assigned permutedAssigned
  have blocks := permutedResolved.blocks_of_follows follows
  refine ⟨permutedModel, permutedSucceeds, ?_, _, resolved.blocks, blocks, ?_⟩
  · rw [blocks, resolved.blocks]
    exact reordered.flatMap_right _
  · exact fun root declared =>
      ⟨_, _, Resolution.block_eq _ root, resolved.isBlock declared⟩

/-- Two roots that lead to each other, an alias between them, and shapes two levels
deep. -/
def Forest.kennel : Forest where
  roots :=
    [("dog", .object ⟨false, .empty, ⟨["dog"]⟩⟩
        [⟨"owner", true, .reference ⟨true, .empty, ⟨["dog", "owner"]⟩⟩ "keeper"⟩,
          ⟨"collar", false, .object ⟨true, .empty, ⟨["dog", "collar"]⟩⟩
            [⟨"size", true, .enum ⟨false, .empty, ⟨["dog", "collar", "size"]⟩⟩
              [.string "S", .string "L"]⟩]⟩]),
      ("keeper", .reference ⟨false, .empty, ⟨["keeper"]⟩⟩ "person"),
      ("person", .object ⟨false, .empty, ⟨["person"]⟩⟩
        [⟨"dogs", false, .array ⟨false, .empty, ⟨["person", "dogs"]⟩⟩
            (.reference ⟨false, .empty, ⟨["person", "dogs", "items"]⟩⟩ "dog")⟩,
          ⟨"phone", false, .union ⟨false, .empty, ⟨["person", "phone"]⟩⟩
            [.primitive ⟨false, .empty, ⟨["person", "phone", "0"]⟩⟩ .string,
              .primitive ⟨false, .empty, ⟨["person", "phone", "1"]⟩⟩ .integer]⟩])]
  distinct := by decide

def Forest.kennelReversed : Forest where
  roots := kennel.roots.reverse
  distinct := by decide

theorem Forest.resolve_kennel : ∃ model, kennel.resolve = .ok model := by
  have succeeds : kennel.resolve.toOption.isSome := by decide +kernel
  cases result : kennel.resolve with
  | error => rw [result] at succeeds; cases succeeds
  | ok model => exact ⟨model, rfl⟩

theorem reordered_roots_reorder_blocks_kennel : ∃ model permutedModel,
    Forest.kennel.resolve = .ok model ∧ Forest.kennel.NamesFreely ∧
    Forest.kennelReversed.resolve = .ok permutedModel ∧
    permutedModel.declarations.Perm model.declarations := by
  obtain ⟨model, succeeds⟩ := Forest.resolve_kennel
  have free : Forest.kennel.NamesFreely := by decide +kernel
  have reordered : Forest.kennelReversed.roots.Perm Forest.kennel.roots :=
    List.reverse_perm _
  obtain ⟨permutedModel, permutedSucceeds, permuted, _⟩ :=
    reordered_roots_reorder_blocks reordered succeeds free
  exact ⟨model, permutedModel, succeeds, free, permutedSucceeds, permuted⟩

end Schemata
