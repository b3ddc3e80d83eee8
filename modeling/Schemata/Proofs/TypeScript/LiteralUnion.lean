import Schemata.Proofs.Json.Quoted
import Schemata.Proofs.TypeScript.TopLevel
import Schemata.Proofs.WellShaped

namespace Schemata.TypeScript

/-! Enumerations that are written as unions of literals, and how their values are read back. -/

/-- A string is spelled by a literal that denotes it, another value by its own text. -/
def IsSpelling : Literal → List Char → Prop
  | .string value, text => Json.Quoted.decode text = some value.toList
  | value, text => text = value.text.toList

theorem isSpelling_text (value : Literal) : IsSpelling value value.text.toList := by
  cases value with
  | string value =>
      rw [IsSpelling, Literal.text, Json.quote, String.toList_ofList]
      exact Json.Quoted.decode_encode value.toList
  | number | boolean | null => rfl

/-- The right side of a union of literals, with null behind the values where it is added. -/
structure SpellsValues (values : List Literal) (addsNull : Bool) (right : List Char) :
    Prop where
  joined : " | ".toList.intercalate (topLevel right) = right
  each : ∃ spelled, topLevel right = spelled ++ (if addsNull then [nullText] else []) ∧
    List.Forall₂ IsSpelling values spelled
  once : (topLevel right).count nullText ≤ 1

theorem count_null_literalAlternatives (values : List Literal) :
    (literalAlternatives values).count nullText = values.count .null := by
  rw [literalAlternatives, List.count_eq_countP, List.countP_map, List.count_eq_countP]
  refine List.countP_congr fun value _ => ?_
  simpa using literal_eq_null_iff

theorem spellsValues_intercalate {values : List Literal} (present : values ≠ [])
    (once : values.count .null ≤ 1) {addsNull : Bool}
    (absent : addsNull = true → .null ∉ values) :
    SpellsValues values addsNull
      (" | ".toList.intercalate (withNull addsNull (literalAlternatives values))) := by
  have cuts : topLevel (" | ".toList.intercalate
      (withNull addsNull (literalAlternatives values))) =
        withNull addsNull (literalAlternatives values) := by
    refine topLevel_intercalate (withNull_ne_nil (by simpa [literalAlternatives])) ?_
    exact isSingle_withNull (List.forall_mem_map.mpr fun value _ => isSingle_literal value)
  refine ⟨congrArg _ cuts, ⟨_, cuts.trans (withNull_eq_append _ _), ?_⟩, ?_⟩
  · exact List.forall₂_map_right_iff.mpr
      (List.forall₂_same.mpr fun value _ => isSpelling_text value)
  · rw [cuts]
    cases addsNull with
    | false => rwa [withNull, if_neg Bool.false_ne_true, count_null_literalAlternatives]
    | true =>
        rw [withNull, if_pos rfl, List.count_append, count_null_literalAlternatives,
          List.count_eq_zero.mpr (absent rfl)]
        decide

theorem count_null_le_one {values : List Literal}
    (distinct : values.Pairwise fun left right => ¬ left.Equals right) :
    values.count .null ≤ 1 := by
  induction values with
  | nil => exact Nat.zero_le 1
  | cons value rest induction =>
      obtain ⟨apart, later⟩ := List.pairwise_cons.mp distinct
      by_cases null : value = .null
      · subst null
        have absent : Literal.null ∉ rest := fun member => apart _ member trivial
        rw [List.count_cons_self, List.count_eq_zero.mpr absent]
      · rw [List.count_cons_of_ne null]
        exact induction later

/-- The code of the declaration is an alias that spells the values. -/
def Declaration.IsUnionOf (values : List Literal) (addsNull : Bool)
    (declaration : Declaration) : Prop :=
  ∃ right, declaration.HasCode (aliasCode declaration.name.toList right) ∧
    SpellsValues values addsNull right

theorem alternatives_of_enum {options : EmitOptions} {nullable : Bool}
    {values : List Literal} {alternatives : List (List Char)}
    (body : bodyOf options nullable (.enum values) = .typeAlias alternatives) :
    alternatives = withNull (nullable ∧ .null ∉ values) (literalAlternatives values) := by
  have added : (nullable && values.all (· ≠ .null)) =
      decide (nullable = true ∧ .null ∉ values) := by
    rw [Bool.eq_iff_iff]
    simp [List.forall_mem_ne']
  simp only [bodyOf] at body
  split at body
  · cases body
  · rw [← added]
    exact (Body.typeAlias.inj body).symm

/-- A union of literals has one alternative for each value of the enumeration, and null is
added where only the declaration has it. Enumerations of compiled models have values, and
null is among them once at most. -/
theorem literal_unions_spell_values (options : EmitOptions)
    {declaration : Schemata.Declaration} {values : List Literal}
    (shape : declaration.definition = .enum values) {alternatives : List (List Char)}
    (body : (Declaration.ofModel options declaration).body = .typeAlias alternatives) :
    (values ≠ [] → values.count .null ≤ 1 →
      (Declaration.ofModel options declaration).IsUnionOf values
        (declaration.nullable ∧ .null ∉ values)) ∧
    ∀ document model, Document.Loaded document → compile document = .ok model →
      declaration ∈ model.declarations →
        (Declaration.ofModel options declaration).IsUnionOf values
          (declaration.nullable ∧ .null ∉ values) := by
  have general : values ≠ [] → values.count .null ≤ 1 →
      (Declaration.ofModel options declaration).IsUnionOf values
        (declaration.nullable ∧ .null ∉ values) := by
    intro present once
    have own : bodyOf options declaration.nullable (.enum values) = .typeAlias alternatives :=
      shape ▸ body
    refine ⟨_, Declaration.hasCode_typeAlias body, ?_⟩
    rw [alternatives_of_enum own]
    exact spellsValues_intercalate present once fun added => (of_decide_eq_true added).2
  refine ⟨general, fun document model loaded compiles member => ?_⟩
  obtain ⟨node, _, _, shaped⟩ := shapedBy_of_compile loaded compiles member
  rw [shape] at shaped
  exact general shaped.1 (count_null_le_one shaped.2)

end Schemata.TypeScript

namespace Schemata

def Definition.values : Definition → List Literal
  | enum values => values
  | _ => []

theorem Definition.eq_enum {definition : Definition} {values : List Literal}
    (present : values ≠ []) (held : definition.values = values) :
    definition = .enum values := by
  cases definition with
  | enum => exact congrArg _ held
  | primitive | object | array | map | untypedMap | union | reference =>
      exact absurd held.symm present

namespace Document

def signs : Node :=
  .mapping ⟨[]⟩ [("$defs", .mapping ⟨["$defs"]⟩
    [("Sign", .mapping ⟨["$defs", "Sign"]⟩
      [("enum", .sequence ⟨["$defs", "Sign", "enum"]⟩
          [.scalar ⟨["$defs", "Sign", "enum", "0"]⟩ (.string "a | \"b\";"),
            .scalar ⟨["$defs", "Sign", "enum", "1"]⟩ (.bool true)]),
        ("nullable", .scalar ⟨["$defs", "Sign", "nullable"]⟩ (.bool true))])])]

theorem loaded_signs : Loaded signs := by
  refine ⟨"\x7b\"$defs\":\x7b\"Sign\":\x7b\"enum\":[\"a | \\\"b\\\";\",true],\"nullable\":true\x7d\x7d\x7d", .inl ?_⟩
  decide +kernel

end Document

open TypeScript in
theorem literal_unions_spell_values_signs :
    (Declaration.ofModel ⟨.namedEnum, .unionWithNull⟩
        ⟨"Mark", .enum [.null, .string ";"], true, .empty, ⟨["Mark"]⟩⟩).IsUnionOf
      [.null, .string ";"] false ∧
    ∃ model, compile Document.signs = .ok model ∧ ∃ declaration,
      model.declarations = [declaration] ∧
      (Declaration.ofModel .standard declaration).IsUnionOf
        [.string "a | \"b\";", .boolean true] true := by
  refine ⟨(literal_unions_spell_values _ rfl rfl).1 (by decide) (by decide), ?_⟩
  have computed : (compile Document.signs).toOption.map (fun model =>
      model.declarations.map fun source => (source.nullable, source.definition.values)) =
        some [(true, [.string "a | \"b\";", .boolean true])] := by
    decide +kernel
  cases compiles : compile Document.signs with
  | error => rw [compiles] at computed; cases computed
  | ok model =>
      rw [compiles] at computed
      obtain ⟨declaration, whole, held⟩ := List.map_eq_singleton_iff.mp (Option.some.inj computed)
      obtain ⟨nullable, values⟩ := Prod.mk.inj held
      have shape := Definition.eq_enum (List.cons_ne_nil _ _) values
      obtain ⟨alternatives, body⟩ : ∃ alternatives,
          (Declaration.ofModel .standard declaration).body = .typeAlias alternatives := by
        rw [Declaration.ofModel, shape]
        exact ⟨_, rfl⟩
      have union := (literal_unions_spell_values .standard shape body).2 _ _
        Document.loaded_signs compiles (whole ▸ List.mem_singleton_self _)
      rw [nullable] at union
      exact ⟨model, rfl, declaration, whole, union⟩

end Schemata
