import Mathlib.Logic.Relation
import Schemata.Proofs.Resolution.Closure

namespace Schemata

/-! Cycles of declarations. They are the same among roots and among the names of the roots,
and a root that has no way on is on none. -/

namespace Resolution

open Relation

section

variable {α β : Type} {related : α → α → Prop} {first last : α}

theorem exists_of_transGen_map {name : α → β}
    (injective : ∀ before here there after, related before here →
      related there after → name here = name there → here = there)
    {start stop : β} (chain : TransGen (Relation.Map related name name) start stop) :
    ∃ first last, name first = start ∧ name last = stop ∧
      TransGen related first last := by
  induction chain with
  | single step =>
      obtain ⟨first, last, step, rfl, rfl⟩ := step
      exact ⟨first, last, rfl, rfl, .single step⟩
  | tail _ step induction =>
      obtain ⟨there, after, step, same, rfl⟩ := step
      obtain ⟨first, here, rfl, named, chain⟩ := induction
      obtain ⟨before, _, arrives⟩ := TransGen.tail'_iff.mp chain
      obtain rfl := injective before here there after arrives step
        (named.trans same.symm)
      exact ⟨first, after, rfl, rfl, chain.tail step⟩

/-- A renaming keeps cycles if no two members of the relation have the same name. -/
theorem exists_cycle_map_iff {name : α → β}
    (injective : ∀ before here there after, related before here →
      related there after → name here = name there → here = there) :
    (∃ member, TransGen (Relation.Map related name name) member member) ↔
      ∃ member, TransGen related member member := by
  constructor
  · rintro ⟨_, cycle⟩
    obtain ⟨first, last, rfl, same, chain⟩ := exists_of_transGen_map injective cycle
    obtain ⟨before, _, arrives⟩ := TransGen.tail'_iff.mp chain
    obtain ⟨after, leaves, _⟩ := TransGen.head'_iff.mp chain
    obtain rfl := injective before last first after arrives leaves same
    exact ⟨last, chain⟩
  · rintro ⟨member, cycle⟩
    exact ⟨name member, cycle.lift name fun here there step =>
      ⟨here, there, step, rfl, rfl⟩⟩

theorem transGen_restrict {kept : α → Prop}
    (keeps : ∀ here there, related here there → kept here)
    (chain : TransGen related first last) (arrived : kept last) :
    TransGen (fun here there => related here there ∧ kept there) first last := by
  induction chain with
  | single step => exact .single ⟨step, arrived⟩
  | tail _ step induction => exact (induction (keeps _ _ step)).tail ⟨step, arrived⟩

/-- Every member of a cycle has a way on, so steps to other members can be left out. -/
theorem exists_cycle_restrict_iff {kept : α → Prop}
    (keeps : ∀ here there, related here there → kept here) :
    (∃ member, TransGen (fun here there => related here there ∧ kept there)
        member member) ↔
      ∃ member, TransGen related member member := by
  constructor
  · rintro ⟨member, cycle⟩
    exact ⟨member, TransGen.mono (fun _ _ step => step.1) _ _ cycle⟩
  · rintro ⟨member, cycle⟩
    obtain ⟨after, leaves, _⟩ := TransGen.head'_iff.mp cycle
    exact ⟨member, transGen_restrict keeps cycle (keeps member after leaves)⟩

end

/-! Names of roots. -/

variable {forest : Forest} {assignment : Assignment}

theorem Named.typeName_inj (named : Named forest assignment) {left right : String}
    (leftDeclared : left ∈ forest.roots.map Prod.fst)
    (rightDeclared : right ∈ forest.roots.map Prod.fst)
    (same : typeName left = typeName right) : left = right := by
  rw [← named.nameOf_root leftDeclared, ← named.nameOf_root rightDeclared] at same
  have position := named.nameOf_inj (root_mem_positions leftDeclared)
    (root_mem_positions rightDeclared) same
  exact congrArg Position.root position

end Resolution

/-! Roots that lead to each other without a definition of their own in between. -/

/-- The reference that is left of a schema when arrays and maps are taken off. -/
def Schema.enclosed? : Schema → Option String
  | .reference _ target => some target
  | .array _ items => items.enclosed?
  | .map _ values => values.enclosed?
  | .primitive .. | .enum .. | .object .. | .untypedMap _ | .union .. => none

/-- A root that is the target of another but for arrays and maps around it. -/
def Forest.Encloses (forest : Forest) (root target : String) : Prop :=
  ∃ schema, (root, schema) ∈ forest.roots ∧ schema.enclosed? = some target

/-- A root that is no object, enumeration or union. -/
def Forest.IsPlainRoot (forest : Forest) (root : String) : Prop :=
  ∃ schema, (root, schema) ∈ forest.roots ∧ ¬ schema.NeedsName

theorem Schema.not_needsName_of_enclosed? {schema : Schema} {target : String}
    (encloses : schema.enclosed? = some target) : ¬ schema.NeedsName := by
  cases schema with
  | enum | object | union => cases encloses
  | reference | primitive | array | map | untypedMap => exact id

namespace Resolution

theorem root_mem_inlineMentions {target : String} :
    (position : Position) → position.path ≠ [] → (schema : Schema) →
    (⟨target, []⟩ ∈ inlineMentions position schema ↔
      schema.enclosed? = some target)
  | _, _, .reference _ other => by
      simp [inlineMentions, Schema.enclosed?, eq_comm]
  | _, _, .primitive .. | _, _, .untypedMap _ => by
      simp [inlineMentions, Schema.enclosed?]
  | position, inner, .enum .. | position, inner, .object ..
  | position, inner, .union .. => by
      have other : (⟨target, []⟩ : Position) ≠ position := by
        rintro rfl
        exact inner rfl
      simp [inlineMentions, Schema.enclosed?, other]
  | position, _, .array _ items | position, _, .map _ items => by
      rw [inlineMentions, Schema.enclosed?]
      exact root_mem_inlineMentions (position.child 0)
        (List.append_ne_nil_of_right_ne_nil _ (List.cons_ne_nil _ _)) items

theorem root_mem_mentions {target : String} (position : Position) {schema : Schema}
    (plain : ¬ schema.NeedsName) :
    ⟨target, []⟩ ∈ mentions position schema ↔ schema.enclosed? = some target := by
  have inner : (position.child 0).path ≠ [] :=
    List.append_ne_nil_of_right_ne_nil _ (List.cons_ne_nil _ _)
  cases schema with
  | reference _ other => simp [mentions, Schema.enclosed?, eq_comm]
  | primitive | untypedMap => simp [mentions, Schema.enclosed?]
  | array _ items | map _ items => exact root_mem_inlineMentions _ inner items
  | enum | object | union => exact absurd trivial plain

end Resolution

end Schemata
