import Schemata.Proofs.Naming.Context
import Schemata.Proofs.Resolution.Ownership
import Schemata.Proofs.Resolution.Precedence

namespace Schemata

/-! What an anonymous shape is named after. The name of the declaration around it and the
way that leads from there to the shape are its naming context, and its name is the type name
of the context, with a number if that is in use. -/

namespace Resolution

/-! The ways in a definition are those of its stops. -/

/-- A stop of an owner puts the name at the end of the way into the owner's definition. -/
def Stop.Leads (nameOf : Position → String) (owner : Position) (way name : String) :
    Stop → Prop
  | .reference target _ => typeName target = name
  | .promotion met =>
      met.owner = owner ∧ met.way = way ∧ nameOf met.position = name
  | .failure _ => False

def LeadsAmong (nameOf : Position → String) (owner : Position) (way name : String)
    (stops : List Stop) : Prop :=
  ∃ stop ∈ stops, stop.Leads nameOf owner way name

section

variable {nameOf : Position → String} {owner : Position} {name : String}
  {way : List String}

theorem LeadsAmong.left {context : String} {stops more : List Stop}
    (leads : LeadsAmong nameOf owner context name stops) :
    LeadsAmong nameOf owner context name (stops ++ more) := by
  obtain ⟨stop, member, reads⟩ := leads
  exact ⟨stop, List.mem_append_left _ member, reads⟩

theorem LeadsAmong.right {context : String} {stops more : List Stop}
    (leads : LeadsAmong nameOf owner context name more) :
    LeadsAmong nameOf owner context name (stops ++ more) := by
  obtain ⟨stop, member, reads⟩ := leads
  exact ⟨stop, List.mem_append_right _ member, reads⟩

@[simp] theorem ways_elementType (schema : Schema) (type : TypeRef) :
    (elementType schema type).ways = type.ways := by
  unfold elementType
  split <;> rfl

theorem leads_inlineType : (context : String) → (position : Position) →
    (schema : Schema) → ∀ way,
    (way, name) ∈ (inlineType nameOf position schema).result.ways →
    LeadsAmong nameOf owner (context ++ String.join way) name
      (inlineStops owner context position schema)
  | _, _, .reference info target, way, member => by
      obtain ⟨-, rfl⟩ := Prod.mk.inj (List.mem_singleton.mp member)
      exact ⟨_, List.mem_singleton_self _, rfl⟩
  | _, _, .primitive .., _, member | _, _, .untypedMap _, _, member => nomatch member
  | context, position, .array info items, way, member => by
      rw [inlineType, Declared.result_map, TypeRef.ways, ways_elementType] at member
      obtain ⟨rest, rfl, inner⟩ := mem_below.mp member
      rw [String.join_cons, ← String.append_assoc]
      exact leads_inlineType (context ++ itemWay) (position.child 0) items rest inner
  | context, position, .map info values, way, member => by
      rw [inlineType, Declared.result_map, TypeRef.ways, ways_elementType] at member
      obtain ⟨rest, rfl, inner⟩ := mem_below.mp member
      rw [String.join_cons, ← String.append_assoc]
      exact leads_inlineType (context ++ valueWay) (position.child 0) values rest inner
  | context, position, .enum .., way, member
  | context, position, .object .., way, member
  | context, position, .union .., way, member => by
      obtain ⟨rfl, rfl⟩ := Prod.mk.inj (List.mem_singleton.mp member)
      rw [String.join_nil, String.append_empty]
      exact ⟨_, List.mem_cons_self, rfl, rfl, rfl⟩

private theorem leads_below {segment : String} {position : Position} {schema : Schema}
    {type : TypeRef} (reads : type.ways = (inlineType nameOf position schema).result.ways)
    (member : (way, name) ∈ below segment type.ways) :
    LeadsAmong nameOf owner (String.join way) name
      (inlineStops owner segment position schema) := by
  rw [reads] at member
  obtain ⟨rest, rfl, inner⟩ := mem_below.mp member
  rw [String.join_cons]
  exact leads_inlineType segment position schema rest inner

theorem leads_fieldsOf {index : Nat} {properties : List (Property Schema)}
    (member : (way, name) ∈
      Definition.fieldWays (fieldsOf nameOf owner index properties).result) :
    LeadsAmong nameOf owner (String.join way) name
      (propertyStops owner index properties) := by
  induction properties generalizing index with
  | nil => exact nomatch member
  | cons property rest induction =>
      rcases List.mem_append.mp member with here | later
      · exact (leads_below rfl here).left
      · exact (induction later).right

theorem leads_variantTypes {index : Nat} {variants : List Schema}
    (member : (way, name) ∈
      Definition.variantWays index (variantTypes nameOf owner index variants).result) :
    LeadsAmong nameOf owner (String.join way) name
      (variantStops owner index variants) := by
  induction variants generalizing index with
  | nil => exact nomatch member
  | cons variant rest induction =>
      rcases List.mem_append.mp member with here | later
      · exact (leads_below (ways_elementType _ _) here).left
      · exact (induction later).right

theorem leads_definitionOf {schema : Schema}
    (member : (way, name) ∈ (definitionOf nameOf owner schema).result.ways) :
    LeadsAmong nameOf owner (String.join way) name (definitionStops owner schema) := by
  cases schema with
  | reference info target =>
      obtain ⟨-, rfl⟩ := Prod.mk.inj (List.mem_singleton.mp member)
      exact ⟨_, List.mem_singleton_self _, rfl⟩
  | primitive | untypedMap | enum => exact nomatch member
  | array info items | map info items =>
      exact leads_below (ways_elementType _ _) member
  | object _ properties => exact leads_fieldsOf member
  | union _ variants => exact leads_variantTypes member

end

/-! Every promotion of a run names its shape after the owner. -/

namespace Assignment

/-- The name is the type name of the context, or that with a number. -/
def Contextual (rule : Position → String) (promotion : Promotion) : Prop :=
  IsNumbered (typeName (rule promotion.owner ++ promotion.way)) (rule promotion.position)

variable {assignment next : Assignment} {rule : Position → String}
  {promotion : Promotion} {events : List (Except CompileError Promotion)}

theorem contextual_of_promote (follows : Follows rule next.names)
    (known : promotion.owner ∈ assignment.names.map Prod.fst)
    (promoted : assignment.promote promotion = .ok next) :
    Contextual rule promotion := by
  obtain ⟨name, registry, made, rfl⟩ := promote_eq_ok_iff.mp promoted
  have own := follows (promotion.position, name) List.mem_cons_self
  have earlier : Follows rule assignment.names := fun entry member =>
    follows entry (List.mem_cons_of_mem _ member)
  rw [requested_of_follows earlier known] at made
  rw [Contextual, ← own]
  exact Registry.isNumbered_of_synthesize made

/-- The owner of a shape is named before the shape is, and keeps its name to the end. -/
theorem contextual_of_promoteAll (sound : assignment.Sound)
    (follows : Follows rule next.names)
    (led : Led (assignment.names.map Prod.fst)
      (events.filterMap Except.toOption))
    (promoted : assignment.promoteAll events = .ok next) :
    ∀ promotion, .ok promotion ∈ events → Contextual rule promotion := by
  induction events generalizing assignment with
  | nil => exact fun _ member => absurd member List.not_mem_nil
  | cons event rest induction =>
      obtain ⟨middle, first, later⟩ := Outcome.bind_eq_ok_iff.mp promoted
      obtain ⟨promotion, rfl, made⟩ := Outcome.bind_eq_ok_iff.mp first
      obtain ⟨name, gives⟩ := gives_of_promote made
      have middleSound := sound.step gives
      obtain ⟨-, keeps, -⟩ := names_of_promoteAll middleSound later
      have middleLed : Led (middle.names.map Prod.fst)
          (rest.filterMap Except.toOption) := by
        rw [gives.names_eq]
        exact led.2
      intro other member
      rcases List.mem_cons.mp member with same | member
      · cases same
        have middleFollows : Follows rule middle.names := fun entry given =>
          follows entry (keeps.subset given)
        exact contextual_of_promote middleFollows led.1 made
      · exact induction middleSound middleLed later other member

theorem contextual_of_ofForest {forest : Forest}
    (assigned : ofForest forest = .ok assignment) :
    ∀ promotion, .ok promotion ∈ promotions forest →
      Contextual assignment.nameOf promotion := by
  obtain ⟨declared, declares, promotes⟩ := ofForest_eq_ok_iff.mp assigned
  obtain ⟨sound, -⟩ := names_of_declareAll sound_empty declares
  exact contextual_of_promoteAll sound (named_of_ofForest assigned).follows_nameOf
    (led_of_declareAll declares) promotes

end Assignment

/-- A walk without a fault meets the promotions of all named nodes. -/
theorem mem_promotions_of_named {forest : Forest} {assignment : Assignment}
    (assigned : Assignment.ofForest forest = .ok assignment) {root : String × Schema}
    (declared : root ∈ forest.roots) {node : Position × Schema}
    (member : node ∈ namedNodes root) {promotion : Promotion}
    (met : .promotion promotion ∈ definitionStops node.1 node.2) :
    .ok promotion ∈ promotions forest := by
  obtain ⟨_, _, promotes⟩ := Assignment.ofForest_eq_ok_iff.mp assigned
  have clean := Assignment.clean_of_promoteAll promotes
  have among : promotion ∈ (promotions forest).filterMap Except.toOption := by
    refine (perm_promotions_roots clean).mem_iff.mpr ?_
    refine List.mem_flatMap.mpr ⟨root, declared, List.mem_filterMap.mpr ?_⟩
    exact ⟨_, stops_subset_of_named member met, rfl⟩
  obtain ⟨event, reported, same⟩ := List.mem_filterMap.mp among
  cases event with
  | error => cases same
  | ok => cases same; exact reported

namespace Resolved

variable {forest : Forest} {assignment : Assignment} {model : Model}

theorem root_or_isNumbered (resolved : Resolved forest assignment model)
    (assigned : Assignment.ofForest forest = .ok assignment) {root : String × Schema}
    (declared : root ∈ forest.roots) {node : Position × Schema}
    (member : node ∈ namedNodes root) {way : List String} {name : String}
    (leads : (way, name) ∈ (definitionOf assignment.nameOf node.1 node.2).result.ways) :
    (∃ other ∈ forest.roots, typeName other.1 = name) ∨
      IsNumbered (typeName (namingContext (assignment.nameOf node.1) way)) name := by
  obtain ⟨stop, met, reads⟩ := leads_definitionOf leads
  cases stop with
  | failure => exact reads.elim
  | reference target location =>
      have referred := mem_referencesOf.mpr (stops_subset_of_named member met)
      rw [referencesOf_definitionStops] at referred
      obtain ⟨info, found, -⟩ := Schema.mem_references.mp referred
      obtain ⟨other, otherDeclared, rfl⟩ :=
        List.mem_map.mp (resolved.references root declared info target found)
      exact .inl ⟨other, otherDeclared, reads⟩
  | promotion promotion =>
      obtain ⟨owner, way, rfl⟩ := reads
      have contextual := Assignment.contextual_of_ofForest assigned promotion
        (mem_promotions_of_named assigned declared member met)
      rw [Assignment.Contextual, owner, way] at contextual
      exact .inr contextual

end Resolved

end Resolution

/-- A declaration that is not a root stands in the definition of another one, at the end
of a way, and is named after it. -/
structure Model.NamesAfterOwners (model : Model) (forest : Forest) : Prop where
  owned : ∀ declaration ∈ model.declarations,
    (∀ root ∈ forest.roots, typeName root.1 ≠ declaration.name) →
    ∃ owner ∈ model.declarations, ∃ way,
      (way, declaration.name) ∈ owner.definition.ways
  named : ∀ owner ∈ model.declarations, ∀ way name,
    (way, name) ∈ owner.definition.ways →
    (∀ root ∈ forest.roots, typeName root.1 ≠ name) → NamedAfter owner.name way name

theorem namesAfterOwners_of_resolve {forest : Forest} {model : Model}
    (succeeds : forest.resolve = .ok model) : model.NamesAfterOwners forest := by
  obtain ⟨assignment, assigned, resolved⟩ := Resolution.assigned_of_ok succeeds
  constructor
  · intro declaration member anonymous
    obtain ⟨root, declared, ⟨shape, within, rfl⟩ | rfl⟩ := resolved.shape_or_root member
    · obtain ⟨earlier, later, split⟩ := List.append_of_mem within
      obtain ⟨owner, inside, mentioned⟩ := resolved.owner_of_shape declared split
      refine ⟨owner, ?_, Definition.exists_way mentioned⟩
      rcases List.mem_append.mp inside with after | own
      · obtain ⟨surrounding, among, rfl⟩ := List.mem_map.mp after
        apply resolved.mem_of_shape declared
        rw [split]
        exact List.mem_append_right _ (List.mem_cons_of_mem _ among)
      · rw [List.mem_singleton.mp own]
        exact resolved.mem_of_root declared
    · have own := resolved.named.nameOf_root (List.mem_map_of_mem declared)
      exact absurd own.symm (anonymous root declared)
  · intro owner member way name leads anonymous
    have typeNamed := isTypeName_of_resolve succeeds owner member
    have wordy := owner.definition.isWordWay_ways (way, name) leads
    obtain ⟨root, declared, node, within, ownName, definition⟩ := resolved.node_of_mem member
    rw [definition] at leads
    rcases resolved.root_or_isNumbered assigned declared within leads with
      ⟨other, otherDeclared, same⟩ | numbered
    · exact absurd same (anonymous other otherDeclared)
    · rw [← ownName] at numbered
      exact namedAfter_of_isNumbered typeNamed wordy numbered

theorem namesAfterOwners_of_resolve_shelter : ∃ model,
    Forest.shelter.resolve = .ok model ∧ model.NamesAfterOwners Forest.shelter ∧
      NamedAfter "Pet" ["Owner"] "PetOwner2" := by
  obtain ⟨model, succeeds, ways⟩ : ∃ model, Forest.shelter.resolve = .ok model ∧
      model.declarations.map (fun owner => (owner.name, owner.definition.ways)) =
        [("PetOwner2", [(["Pets", "Item"], "Pet")]),
          ("PetTagVariant2", []),
          ("PetTag", [(["Variant2"], "PetTagVariant2")]),
          ("Pet", [(["Owner"], "PetOwner2"), (["Tag"], "PetTag")]),
          ("PetOwner", [([], "House")]),
          ("HouseValue", [(["PetOwner"], "PetOwner")]),
          ("House", [(["Value"], "HouseValue")])] :=
    Forest.exists_model_of_read (by decide +kernel)
  have named := namesAfterOwners_of_resolve succeeds
  refine ⟨model, succeeds, named, ?_⟩
  have listed : ("Pet", [(["Owner"], "PetOwner2"), (["Tag"], "PetTag")]) ∈
      model.declarations.map fun owner => (owner.name, owner.definition.ways) := by
    simp [ways]
  obtain ⟨owner, member, same⟩ := List.mem_map.mp listed
  obtain ⟨ownName, ownWays⟩ := Prod.mk.inj same
  rw [← ownName]
  exact named.named owner member _ _ (by simp [ownWays]) (by decide +kernel)

/-- Two words of one letter make a name that reads as one word where more follows. -/
def Forest.hyphenated : Forest where
  roots :=
    [("a-b", .array ⟨false, .empty, ⟨["a-b"]⟩⟩
      (.object ⟨false, .empty, ⟨["a-b", "items"]⟩⟩ []))]
  distinct := by decide

theorem not_continues_hyphenated : ∃ model, Forest.hyphenated.resolve = .ok model ∧
    ∃ owner ∈ model.declarations, ∃ declaration ∈ model.declarations,
      (∀ root ∈ Forest.hyphenated.roots, typeName root.1 ≠ declaration.name) ∧
      (["Item"], declaration.name) ∈ owner.definition.ways ∧
      ¬ IsNumbered (namingContext owner.name ["Item"]) declaration.name ∧
      ¬ owner.name.toList <+: declaration.name.toList := by
  obtain ⟨model, succeeds, ways⟩ : ∃ model, Forest.hyphenated.resolve = .ok model ∧
      model.declarations.map (fun owner => (owner.name, owner.definition.ways)) =
        [("AbItem", []), ("AB", [(["Item"], "AbItem")])] :=
    Forest.exists_model_of_read (by decide +kernel)
  obtain ⟨declaration, _, split, shape, rest⟩ := List.map_eq_cons_iff.mp ways
  obtain ⟨owner, _, rfl, own, _⟩ := List.map_eq_cons_iff.mp rest
  obtain ⟨name, -⟩ := Prod.mk.inj shape
  obtain ⟨ownName, ownWays⟩ := Prod.mk.inj own
  have apart : ¬ owner.name.toList <+: declaration.name.toList := by
    rw [name, ownName]
    decide
  refine ⟨model, succeeds, owner, by simp [split], declaration, by simp [split], ?_, ?_, ?_,
    apart⟩
  · rw [name]
    decide +kernel
  · rw [ownWays, name]
    exact List.mem_singleton_self _
  · intro numbered
    exact apart ((owner_isPrefix _ _).trans numbered.isPrefix)

end Schemata
