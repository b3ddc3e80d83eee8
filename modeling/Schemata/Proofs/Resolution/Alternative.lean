import Mathlib.Logic.Relation
import Schemata.Proofs.Resolution.Closure

namespace Schemata

/-! Alternatives. What a root stands for is found by following references and the members
of unions, and a union inside another is declared in between. -/

mutual
/-- The roots that a schema may stand for: the target of a reference, and those of the
members of a union. -/
def Schema.offered : Schema → List String
  | .reference _ target => [target]
  | .union _ variants => offeredAmong variants
  | .primitive .. | .enum .. | .object .. | .array .. | .map .. | .untypedMap _ => []

def Schema.offeredAmong : List Schema → List String
  | [] => []
  | variant :: rest => variant.offered ++ offeredAmong rest
end

def Forest.Offers (forest : Forest) (root target : String) : Prop :=
  ∃ schema, (root, schema) ∈ forest.roots ∧ target ∈ schema.offered

/-- The names among the alternatives of a type. -/
def TypeRef.alternatives : TypeRef → List String
  | .named name => [name]
  | .nullable inner => inner.alternatives
  | .primitive _ | .array _ | .map _ | .untypedMap => []

def Definition.alternatives : Definition → List String
  | .reference target => target.alternatives
  | .union variants => variants.flatMap (·.alternatives)
  | .primitive _ | .enum _ | .object _ | .array _ | .map _ | .untypedMap => []

namespace Resolution

open Relation

/-! The declarations that are alternatives of another. -/

def inlineAlternatives (position : Position) : Schema → List Position
  | .reference _ target => [⟨target, []⟩]
  | .enum .. | .object .. | .union .. => [position]
  | .primitive .. | .array .. | .map .. | .untypedMap _ => []

def variantAlternatives (owner : Position) (index : Nat) : List Schema → List Position
  | [] => []
  | variant :: rest =>
      inlineAlternatives (owner.child index) variant ++
        variantAlternatives owner (index + 1) rest

def alternatives (position : Position) : Schema → List Position
  | .reference _ target => [⟨target, []⟩]
  | .union _ variants => variantAlternatives position 0 variants
  | .primitive .. | .enum .. | .object .. | .array .. | .map .. | .untypedMap _ => []

theorem inlineAlternatives_subset (position : Position) (schema : Schema) :
    inlineAlternatives position schema ⊆ inlineMentions position schema := by
  cases schema with
  | reference | enum | object | union => exact List.Subset.refl _
  | primitive | array | map | untypedMap => exact List.nil_subset _

theorem variantAlternatives_subset (owner : Position) (index : Nat)
    (variants : List Schema) :
    variantAlternatives owner index variants ⊆ variantMentions owner index variants := by
  induction variants generalizing index with
  | nil => exact List.Subset.refl _
  | cons variant rest induction =>
      exact List.append_subset.mpr
        ⟨List.subset_append_of_subset_left _ (inlineAlternatives_subset _ variant),
          List.subset_append_of_subset_right _ (induction (index + 1))⟩

theorem alternatives_subset (position : Position) (schema : Schema) :
    alternatives position schema ⊆ mentions position schema := by
  cases schema with
  | reference => exact List.Subset.refl _
  | union _ variants => exact variantAlternatives_subset position 0 variants
  | primitive | enum | object | array | map | untypedMap => exact List.nil_subset _

/-- One declared node is an alternative of another. -/
def Alternative (forest : Forest) (position alternative : Position) : Prop :=
  ∃ root ∈ forest.roots, ∃ schema, (position, schema) ∈ namedNodes root ∧
    alternative ∈ alternatives position schema

/-! From the roots to the declarations. -/

section

variable {forest : Forest} {root : String × Schema} {target : String}

mutual
theorem leads_of_inline (declared : root ∈ forest.roots) {owner : Position} :
    (position : Position) → (schema : Schema) →
    (∀ alternative ∈ inlineAlternatives position schema,
      Alternative forest owner alternative) →
    shapesAt position schema ⊆ shapesWithin ⟨root.1, []⟩ root.2 →
    target ∈ schema.offered → TransGen (Alternative forest) owner ⟨target, []⟩
  | _, .reference _ other, steps, _, offered => by
      obtain rfl := List.mem_singleton.mp offered
      exact .single (steps _ (List.mem_singleton_self _))
  | position, .union info variants, steps, within, offered => by
      rw [shapesAt_union] at within
      obtain ⟨inner, own⟩ := List.append_subset.mp within
      have member : (position, .union info variants) ∈ namedNodes root :=
        List.mem_append_left _ (own (List.mem_singleton_self _))
      refine .head (steps position (List.mem_singleton_self _)) ?_
      exact leads_of_variants declared position 0 variants
        (fun _ among => ⟨root, declared, _, member, among⟩) inner offered

theorem leads_of_variants (declared : root ∈ forest.roots) :
    (owner : Position) → (index : Nat) → (variants : List Schema) →
    (∀ alternative ∈ variantAlternatives owner index variants,
      Alternative forest owner alternative) →
    variantShapes owner index variants ⊆ shapesWithin ⟨root.1, []⟩ root.2 →
    target ∈ Schema.offeredAmong variants →
    TransGen (Alternative forest) owner ⟨target, []⟩
  | owner, index, variant :: rest, steps, within, offered => by
      obtain ⟨here, later⟩ := List.forall_mem_append.mp steps
      rw [variantShapes_cons] at within
      obtain ⟨shapes, others⟩ := List.append_subset.mp within
      rcases List.mem_append.mp offered with own | among
      · exact leads_of_inline declared (owner.child index) variant here shapes own
      · exact leads_of_variants declared owner (index + 1) rest later others among
end

theorem leads_of_offered (declared : root ∈ forest.roots)
    (offered : target ∈ root.2.offered) :
    TransGen (Alternative forest) ⟨root.1, []⟩ ⟨target, []⟩ := by
  obtain ⟨name, schema⟩ := root
  have step : ∀ alternative ∈ alternatives ⟨name, []⟩ schema,
      Alternative forest ⟨name, []⟩ alternative := fun _ among =>
    ⟨(name, schema), declared, schema, root_mem_namedNodes (name, schema), among⟩
  cases schema with
  | reference info other =>
      obtain rfl := List.mem_singleton.mp offered
      exact .single (step _ (List.mem_singleton_self _))
  | union info variants =>
      exact leads_of_variants declared ⟨name, []⟩ 0 variants step (List.Subset.refl _)
        offered
  | primitive | enum | object | array | map | untypedMap => cases offered

end

/-! From the declarations to the roots. -/

/-- An alternative is a root that is offered, or a shape that offers no more. -/
def OfferedOrWithin (offered : List String) (shapes : List (Position × Schema))
    (alternative : Position) : Prop :=
  (∃ target ∈ offered, alternative = ⟨target, []⟩) ∨
    ∃ schema, (alternative, schema) ∈ shapes ∧ schema.offered ⊆ offered

theorem OfferedOrWithin.mono {offered more : List String}
    {shapes others : List (Position × Schema)} {alternative : Position}
    (reached : OfferedOrWithin offered shapes alternative) (offers : offered ⊆ more)
    (within : shapes ⊆ others) : OfferedOrWithin more others alternative := by
  rcases reached with ⟨target, member, root⟩ | ⟨schema, member, inner⟩
  · exact .inl ⟨target, offers member, root⟩
  · exact .inr ⟨schema, within member, List.Subset.trans inner offers⟩

theorem offeredOrWithin_inline {position alternative : Position} {schema : Schema}
    (among : alternative ∈ inlineAlternatives position schema) :
    OfferedOrWithin schema.offered (shapesAt position schema) alternative := by
  cases schema with
  | reference _ target =>
      exact .inl ⟨target, List.mem_singleton_self _, List.mem_singleton.mp among⟩
  | enum | object | union =>
      obtain rfl := List.mem_singleton.mp among
      exact .inr ⟨_, List.mem_append_right _ (List.mem_singleton_self _),
        List.Subset.refl _⟩
  | primitive | array | map | untypedMap => cases among

theorem offeredOrWithin_variants {owner alternative : Position} {index : Nat}
    {variants : List Schema}
    (among : alternative ∈ variantAlternatives owner index variants) :
    OfferedOrWithin (Schema.offeredAmong variants) (variantShapes owner index variants)
      alternative := by
  induction variants generalizing index with
  | nil => cases among
  | cons variant rest induction =>
      rw [variantShapes_cons]
      rcases List.mem_append.mp among with here | later
      · exact (offeredOrWithin_inline here).mono (List.subset_append_left _ _)
          (List.subset_append_left _ _)
      · exact (induction later).mono (List.subset_append_right _ _)
          (List.subset_append_right _ _)

theorem offeredOrWithin_of_mem {position alternative : Position} {schema : Schema}
    (among : alternative ∈ alternatives position schema) :
    OfferedOrWithin schema.offered (shapesWithin position schema) alternative := by
  cases schema with
  | reference _ target =>
      exact .inl ⟨target, List.mem_singleton_self _, List.mem_singleton.mp among⟩
  | union _ variants => exact offeredOrWithin_variants among
  | primitive | enum | object | array | map | untypedMap => cases among

section

variable {forest : Forest}

theorem node_unique {left right : String × Schema} (leftDeclared : left ∈ forest.roots)
    (rightDeclared : right ∈ forest.roots) {position : Position}
    {schema other : Schema} (leftMember : (position, schema) ∈ namedNodes left)
    (rightMember : (position, other) ∈ namedNodes right) : schema = other := by
  have leftRoot : position.root = left.1 :=
    root_of_mem_namedNodes (List.mem_map_of_mem leftMember)
  have rightRoot : position.root = right.1 :=
    root_of_mem_namedNodes (List.mem_map_of_mem rightMember)
  obtain rfl := List.inj_on_of_nodup_map forest.distinct leftDeclared rightDeclared
    (leftRoot.symm.trans rightRoot)
  have same := List.inj_on_of_nodup_map (nodup_namedNodes left) leftMember rightMember rfl
  exact congrArg Prod.snd same

theorem root_of_named {root : String × Schema} {target : String} {schema : Schema}
    (member : (⟨target, []⟩, schema) ∈ namedNodes root) : (target, schema) = root := by
  rcases List.mem_append.mp member with inner | own
  · exact absurd rfl (path_ne_nil inner)
  · cases List.mem_singleton.mp own
    rfl

theorem offers_of_transGen {position : Position} {target : String}
    (chain : TransGen (Alternative forest) position ⟨target, []⟩) :
    ∃ root ∈ forest.roots, ∃ schema, (position, schema) ∈ namedNodes root ∧
      ∃ next ∈ schema.offered, ReflTransGen forest.Offers next target := by
  induction chain using TransGen.head_induction_on with
  | single step =>
      obtain ⟨root, declared, schema, member, among⟩ := step
      refine ⟨root, declared, schema, member, ?_⟩
      rcases offeredOrWithin_of_mem among with ⟨root, own, same⟩ | ⟨shape, within, -⟩
      · cases same
        exact ⟨target, own, .refl⟩
      · exact absurd rfl (path_ne_nil (shapesWithin_subset_of_named member within))
  | head step _ induction =>
      obtain ⟨root, declared, schema, member, among⟩ := step
      obtain ⟨other, otherDeclared, inner, innerMember, next, offered, rest⟩ := induction
      refine ⟨root, declared, schema, member, ?_⟩
      rcases offeredOrWithin_of_mem among with ⟨root, own, rfl⟩ | ⟨shape, within, fewer⟩
      · obtain rfl := root_of_named innerMember
        exact ⟨root, own, .head ⟨inner, otherDeclared, offered⟩ rest⟩
      · have shapeMember : _ ∈ namedNodes root := List.mem_append_left _
          (shapesWithin_subset_of_named member within)
        obtain rfl := node_unique declared otherDeclared shapeMember innerMember
        exact ⟨next, fewer offered, rest⟩

theorem root_or_deeper {position alternative : Position}
    (step : Alternative forest position alternative) :
    (∃ root, alternative = ⟨root, []⟩) ∨
      position.path.length < alternative.path.length := by
  obtain ⟨root, declared, schema, member, among⟩ := step
  have mentioned : alternative ∈ mentionsOf (position, schema) :=
    alternatives_subset position schema among
  refine (depth_mentionsOf mentioned).imp_left fun atRoot => ?_
  obtain ⟨name, _⟩ := alternative
  cases atRoot
  exact ⟨name, rfl⟩

/-- A chain passes by a root or leads down. -/
theorem root_or_deeper_of_transGen {first last : Position}
    (chain : TransGen (Alternative forest) first last) :
    (∃ root, TransGen (Alternative forest) first ⟨root, []⟩ ∧
      ReflTransGen (Alternative forest) ⟨root, []⟩ last) ∨
      first.path.length < last.path.length := by
  induction chain with
  | single step =>
      rcases root_or_deeper step with ⟨root, rfl⟩ | below
      · exact .inl ⟨root, .single step, .refl⟩
      · exact .inr below
  | tail earlier step induction =>
      rcases root_or_deeper step with ⟨root, rfl⟩ | below
      · exact .inl ⟨root, earlier.tail step, .refl⟩
      · rcases induction with ⟨root, down, rest⟩ | above
        · exact .inl ⟨root, down, rest.tail step⟩
        · exact .inr (Nat.lt_trans above below)

/-- Declarations that are alternatives of themselves come with roots that are. -/
theorem exists_cycle_alternative_iff :
    (∃ position, TransGen (Alternative forest) position position) ↔
      ∃ root, TransGen forest.Offers root root := by
  constructor
  · rintro ⟨position, cycle⟩
    rcases root_or_deeper_of_transGen cycle with ⟨root, down, back⟩ | deeper
    · obtain ⟨declared, member, schema, named, next, offered, rest⟩ :=
        offers_of_transGen (TransGen.trans_right back down)
      obtain rfl := root_of_named named
      exact ⟨root, .head' ⟨schema, member, offered⟩ rest⟩
    · omega
  · rintro ⟨root, cycle⟩
    refine ⟨⟨root, []⟩, cycle.lift' (fun root => (⟨root, []⟩ : Position)) ?_⟩
    rintro here there ⟨schema, declared, offered⟩
    exact leads_of_offered declared offered

end

/-! Alternatives in definitions are the names of those positions. -/

section

variable {nameOf : Position → String}

@[simp] theorem alternatives_elementType (schema : Schema) (type : TypeRef) :
    (elementType schema type).alternatives = type.alternatives := by
  unfold elementType
  split <;> rfl

theorem alternatives_inlineType (position : Position) (schema : Schema)
    (writes : WritesRoots nameOf (inlineMentions position schema)) :
    (inlineType nameOf position schema).result.alternatives =
      (inlineAlternatives position schema).map nameOf := by
  cases schema with
  | reference _ target =>
      exact congrArg ([·]) (writes target (List.mem_singleton_self _)).symm
  | primitive | enum | object | array | map | untypedMap | union => rfl

theorem alternatives_variantTypes (owner : Position) (index : Nat)
    (variants : List Schema)
    (writes : WritesRoots nameOf (variantMentions owner index variants)) :
    (variantTypes nameOf owner index variants).result.flatMap (·.alternatives) =
      (variantAlternatives owner index variants).map nameOf := by
  induction variants generalizing index with
  | nil => rfl
  | cons variant rest induction =>
      rw [variantAlternatives, List.map_append,
        ← alternatives_inlineType (owner.child index) variant fun target member =>
          writes target (List.mem_append_left _ member),
        ← induction (index + 1) fun target member =>
          writes target (List.mem_append_right _ member)]
      simp [variantTypes]

theorem alternatives_definitionOf (position : Position) (schema : Schema)
    (writes : WritesRoots nameOf (mentions position schema)) :
    (definitionOf nameOf position schema).result.alternatives =
      (alternatives position schema).map nameOf := by
  cases schema with
  | reference _ target =>
      exact congrArg ([·]) (writes target (List.mem_singleton_self _)).symm
  | union _ variants => exact alternatives_variantTypes position 0 variants writes
  | primitive | enum | object | array | map | untypedMap => rfl

end

end Resolution

end Schemata
