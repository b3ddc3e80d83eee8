import Mathlib.Data.List.Forall2
import Mathlib.Data.Nat.SuccPred
import Schemata.Proofs.Number.Binary64
import Schemata.Proofs.Outcome
import Schemata.Schema.Keyword

namespace Schemata

/-! Enumerations are read up to the first item that is no literal or that repeats an earlier
one. -/

/-- What a literal stands for. Whole numbers are kept apart from floating-point numbers, which are
compared by their value, so that the two zeros are one. -/
inductive Meaning where
  | string (value : String)
  | number (value : Int ⊕ ℚ)
  | boolean (value : Bool)
  | null

def Number.meaning : Number → Int ⊕ ℚ
  | .integer value => .inl value
  | .float value => .inr value.toRat

def Literal.meaning : Literal → Meaning
  | .string value => .string value
  | .number value => .number value.meaning
  | .boolean value => .boolean value
  | .null => .null

theorem Number.equals_iff {left right : Number} :
    left.Equals right ↔ left.meaning = right.meaning := by
  cases left <;> cases right
  case integer.integer left right => exact Sum.inl_injective.eq_iff.symm
  case float.float left right =>
    exact Binary64.equals_iff.trans Sum.inr_injective.eq_iff.symm
  all_goals exact iff_of_false False.elim nofun

theorem Literal.equals_iff {left right : Literal} :
    left.Equals right ↔ left.meaning = right.meaning := by
  cases left <;> cases right
  case string.string left right => exact (Meaning.string.injEq left right).symm.to_iff
  case number.number left right =>
    rw [meaning, meaning, Meaning.number.injEq]
    exact Number.equals_iff
  case boolean.boolean left right => exact (Meaning.boolean.injEq left right).symm.to_iff
  case null.null => exact iff_of_true trivial rfl
  all_goals exact iff_of_false False.elim nofun

example : Literal.meaning (.number (.float (.zero true))) =
    Literal.meaning (.number (.float (.zero false))) :=
  Literal.equals_iff.mp (by decide)

def Scalar.literal : Scalar → Literal
  | .string value => .string value
  | .number value => .number value
  | .bool value => .boolean value
  | .null => .null

def Node.literal? (node : Node) : Option Literal :=
  node.scalar?.map Scalar.literal

namespace Keyword

open Outcome

variable {item : Node} {items front back : List Node} {earlier values later : List Literal}
  {index : Nat} {error : CompileError}

/-! Items. -/

/-- The literals of the items in their order. No two of them mean the same. -/
structure Enumerates (items : List Node) (values : List Literal) : Prop where
  each : List.Forall₂ (fun item value => item.literal? = some value) items values
  distinct : (values.map Literal.meaning).Nodup

/-- The item is no literal, or one before it means the same. -/
def Offends (items : List Node) (index : Nat) : Prop :=
  ∃ item, items[index]? = some item ∧ ∀ value, item.literal? = some value →
    ∃ earlier ∈ (items.take index).filterMap Node.literal?, earlier.meaning = value.meaning

/-- The error on an item that offends. -/
inductive Blame (item : Node) : CompileError → Prop
  | notScalar (composite : item.literal? = none) :
      Blame item (.malformed item.location .enumValueNotScalar)
  | repeated {value : Literal} (scalar : item.literal? = some value) :
      Blame item (.duplicateValue item.location value)

theorem Blame.unique {other : CompileError} (blame : Blame item error)
    (blame' : Blame item other) : error = other := by
  cases blame with
  | notScalar composite =>
      cases blame' with
      | notScalar => rfl
      | repeated scalar => cases composite.symm.trans scalar
  | repeated scalar =>
      cases blame' with
      | notScalar composite => cases composite.symm.trans scalar
      | repeated scalar' =>
          obtain rfl := Option.some.inj (scalar.symm.trans scalar')
          rfl

theorem filterMap_of_forall₂
    (each : List.Forall₂ (fun item value => item.literal? = some value) items values) :
    items.filterMap Node.literal? = values := by
  induction each with
  | nil => rfl
  | cons here _ induction => rw [List.filterMap_cons_some here, induction]

theorem offends_of_lt (within : index < front.length) :
    Offends (front ++ back) index ↔ Offends front index := by
  rw [Offends, Offends, List.getElem?_append_left within, List.take_append_of_le_length within.le]

theorem offends_length
    (each : List.Forall₂ (fun item value => item.literal? = some value) front later) :
    Offends (front ++ item :: back) front.length ↔
      ∀ value, item.literal? = some value → value.meaning ∈ later.map Literal.meaning := by
  have here : (front ++ item :: back)[front.length]? = some item := by simp
  rw [Offends, List.take_left, filterMap_of_forall₂ each, here]
  simp only [Option.some.injEq, exists_eq_left', List.mem_map]

/-- Where all literals are distinct, nothing offends. -/
theorem Enumerates.not_offends (enumerates : Enumerates items values) (index : Nat) :
    ¬Offends items index := by
  rintro ⟨item, here, offends⟩
  obtain ⟨bound, rfl⟩ := List.getElem?_eq_some_iff.mp here
  have within : index < values.length := enumerates.each.length_eq ▸ bound
  obtain ⟨other, before, same⟩ := offends _ (enumerates.each.get bound within)
  rw [filterMap_of_forall₂ (List.forall₂_take index enumerates.each)] at before
  have apart := List.disjoint_take_drop enumerates.distinct (le_refl index)
  rw [← List.map_take, ← List.map_drop] at apart
  have after : values[index] ∈ values.drop index := by
    rw [← List.cons_getElem_drop_succ]
    exact List.mem_cons_self
  exact apart (same ▸ List.mem_map_of_mem before) (List.mem_map_of_mem after)

/-! Steps. -/

theorem literal_of_some {value : Literal} (scalar : item.literal? = some value) :
    literal item = .ok value := by
  obtain ⟨held, here, rfl⟩ := Option.map_eq_some_iff.mp scalar
  rw [literal, here]
  cases held <;> rfl

theorem literal_of_none (composite : item.literal? = none) :
    literal item = .error (.malformed item.location .enumValueNotScalar) := by
  rw [literal, Option.map_eq_none_iff.mp composite]
  rfl

theorem any_equals_iff {value : Literal} :
    earlier.any (decide <| value.Equals ·) = true ↔
      value.meaning ∈ earlier.map Literal.meaning := by
  simp only [List.any_eq_true, decide_eq_true_eq, List.mem_map, Literal.equals_iff]
  exact exists_congr fun other => and_congr_right' eq_comm

theorem distinctLiterals_of_fresh {value : Literal} (scalar : item.literal? = some value)
    (fresh : value.meaning ∉ earlier.map Literal.meaning) :
    distinctLiterals earlier (item :: back) = distinctLiterals (earlier ++ [value]) back := by
  rw [distinctLiterals, literal_of_some scalar]
  exact if_neg (mt any_equals_iff.mp fresh)

/-- An item that offends ends the reading with its error. -/
theorem distinctLiterals_of_offence (back : List Node)
    (offends : ∀ value, item.literal? = some value → value.meaning ∈ earlier.map Literal.meaning) :
    ∃ error, Blame item error ∧ distinctLiterals earlier (item :: back) = .error error := by
  rw [distinctLiterals]
  cases scalar : item.literal? with
  | none =>
      rw [literal_of_none scalar]
      exact ⟨_, .notScalar scalar, rfl⟩
  | some value =>
      rw [literal_of_some scalar]
      exact ⟨_, .repeated scalar, if_pos (any_equals_iff.mpr (offends value scalar))⟩

/-! Runs. -/

theorem distinctLiterals_append
    (each : List.Forall₂ (fun item value => item.literal? = some value) front later)
    (distinct : ((earlier ++ later).map Literal.meaning).Nodup) :
    distinctLiterals earlier (front ++ back) = distinctLiterals (earlier ++ later) back := by
  induction each generalizing earlier with
  | nil => rw [List.append_nil, List.nil_append]
  | @cons item value front later here _ induction =>
      have fresh : value.meaning ∉ earlier.map Literal.meaning := by
        rw [List.map_append] at distinct
        intro member
        exact (List.nodup_append.mp distinct).2.2 _ member _ List.mem_cons_self rfl
      rw [List.append_cons] at distinct ⊢
      rw [← induction distinct]
      exact distinctLiterals_of_fresh here fresh

theorem Enumerates.concat {value : Literal} (enumerates : Enumerates front later)
    (scalar : item.literal? = some value) (fresh : value.meaning ∉ later.map Literal.meaning) :
    Enumerates (front ++ [item]) (later ++ [value]) := by
  refine ⟨List.rel_append enumerates.each (.cons scalar .nil), ?_⟩
  rw [List.map_append, List.map_singleton, ← List.concat_eq_append]
  exact enumerates.distinct.concat fresh

/-- Either all items are literals of their own, or those before one that offends. -/
theorem enumerates_or_offends (items : List Node) :
    (∃ values, Enumerates items values) ∨
      ∃ front item back later, items = front ++ item :: back ∧ Enumerates front later ∧
        ∀ value, item.literal? = some value → value.meaning ∈ later.map Literal.meaning := by
  induction items using List.reverseRecOn with
  | nil => exact .inl ⟨[], .nil, List.nodup_nil⟩
  | append_singleton items last induction =>
      obtain ⟨later, enumerates⟩ | ⟨front, item, back, later, rfl, enumerates, offends⟩ :=
        induction
      · by_cases offends : ∀ value, last.literal? = some value →
            value.meaning ∈ later.map Literal.meaning
        · exact .inr ⟨items, last, [], later, rfl, enumerates, offends⟩
        · push Not at offends
          obtain ⟨value, scalar, fresh⟩ := offends
          exact .inl ⟨_, enumerates.concat scalar fresh⟩
      · exact .inr ⟨front, item, back ++ [last], later, by simp, enumerates, offends⟩

theorem isLeast_offends (back : List Node) (enumerates : Enumerates front later)
    (offends : ∀ value, item.literal? = some value → value.meaning ∈ later.map Literal.meaning) :
    IsLeast {index | Offends (front ++ item :: back) index} front.length := by
  refine ⟨(offends_length enumerates.each).mpr offends, fun index other => ?_⟩
  by_contra within
  exact enumerates.not_offends index ((offends_of_lt (not_le.mp within)).mp other)

theorem distinctLiterals_of_enumerates (enumerates : Enumerates items values) :
    distinctLiterals [] items = .ok values := by
  rw [← List.append_nil items]
  exact distinctLiterals_append enumerates.each enumerates.distinct

theorem distinctLiterals_of_refused (back : List Node) (enumerates : Enumerates front later)
    (offends : ∀ value, item.literal? = some value → value.meaning ∈ later.map Literal.meaning) :
    ∃ error, Blame item error ∧ distinctLiterals [] (front ++ item :: back) = .error error := by
  obtain ⟨error, blame, ends⟩ := distinctLiterals_of_offence back offends
  have reads : distinctLiterals [] (front ++ item :: back) =
      distinctLiterals later (item :: back) :=
    distinctLiterals_append enumerates.each enumerates.distinct
  exact ⟨error, blame, reads.trans ends⟩

theorem distinctLiterals_eq_ok_iff :
    distinctLiterals [] items = .ok values ↔ Enumerates items values := by
  refine ⟨fun reads => ?_, distinctLiterals_of_enumerates⟩
  obtain ⟨later, enumerates⟩ | ⟨front, item, back, later, rfl, enumerates, offends⟩ :=
    enumerates_or_offends items
  · obtain rfl := Except.ok.inj (reads.symm.trans (distinctLiterals_of_enumerates enumerates))
    exact enumerates
  · obtain ⟨error, -, fails⟩ := distinctLiterals_of_refused back enumerates offends
    cases reads.symm.trans fails

theorem distinctLiterals_eq_error_iff :
    distinctLiterals [] items = .error error ↔
      ∃ index item, items[index]? = some item ∧ IsLeast {index | Offends items index} index ∧
        Blame item error := by
  obtain ⟨later, enumerates⟩ | ⟨front, item, back, later, rfl, enumerates, offends⟩ :=
    enumerates_or_offends items
  · refine iff_of_false ?_ ?_
    · rw [distinctLiterals_of_enumerates enumerates]
      exact nofun
    · rintro ⟨index, -, -, least, -⟩
      exact enumerates.not_offends index least.1
  · obtain ⟨found, blame, fails⟩ := distinctLiterals_of_refused back enumerates offends
    have least := isLeast_offends back enumerates offends
    have here : (front ++ item :: back)[front.length]? = some item := by simp
    rw [fails, Except.error.injEq]
    constructor
    · rintro rfl
      exact ⟨front.length, item, here, least, blame⟩
    · rintro ⟨index, other, there, least', blame'⟩
      obtain rfl := least'.unique least
      obtain rfl := Option.some.inj (here.symm.trans there)
      exact blame.unique blame'

/-- An enumeration is read exactly when it has items, all of which are literals that mean
different things. Otherwise the error is the one on the first item that offends. -/
theorem enum_blames_first_offence (location : Location) (items : List Node) :
    (∀ values, enum (.sequence location items) = .ok values ↔
      items ≠ [] ∧ List.Forall₂ (fun item value => item.literal? = some value) items values ∧
        (values.map Literal.meaning).Nodup) ∧
    ∀ error, enum (.sequence location items) = .error error ↔
      items = [] ∧ error = .malformed location .emptyEnum ∨
        ∃ index item, items[index]? = some item ∧
          IsLeast {index | Offends items index} index ∧ Blame item error := by
  cases items with
  | nil =>
      have reading : enum (.sequence location []) = .error (.malformed location .emptyEnum) := rfl
      rw [reading]
      refine ⟨fun values => iff_of_false nofun fun reads => reads.1 rfl, fun error => ?_⟩
      rw [Except.error.injEq]
      constructor
      · rintro rfl
        exact .inl ⟨rfl, rfl⟩
      · rintro (⟨-, rfl⟩ | ⟨index, item, here, -⟩)
        · rfl
        · cases here
  | cons first rest =>
      have reading : enum (.sequence location (first :: rest)) =
        distinctLiterals [] (first :: rest) := rfl
      rw [reading]
      refine ⟨fun values => ?_, fun error => ?_⟩
      · rw [distinctLiterals_eq_ok_iff, and_iff_right (List.cons_ne_nil first rest)]
        exact ⟨fun enumerates => ⟨enumerates.each, enumerates.distinct⟩,
          fun conditions => ⟨conditions.1, conditions.2⟩⟩
      · rw [distinctLiterals_eq_error_iff]
        exact (or_iff_right fun empty => List.cons_ne_nil first rest empty.1).symm

end Keyword

end Schemata
