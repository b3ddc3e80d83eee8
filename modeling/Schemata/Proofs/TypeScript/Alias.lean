import Schemata.Proofs.Resolution.Alternative
import Schemata.Proofs.Resolution.Cycle
import Schemata.Proofs.TypeScript.TypeWord

namespace Schemata.TypeScript

/-! Aliases that stand for each other. An alias is printed with the alternatives of its
definition, so one that has itself among them, by way of references and unions, never
reaches a type of its own. -/

/-- A name is a whole text or stands beside null in it. -/
inductive Operand (name : List Char) : List Char → Prop
  | whole : Operand name name
  | besideNull {text : List Char} (operand : Operand name text) :
      Operand name (orNull text)

section

variable {name : String} {text : List Char}

theorem Operand.isPrefix {name : List Char} (operand : Operand name text) :
    name <+: text := by
  induction operand with
  | whole => exact List.prefix_refl _
  | besideNull _ induction => exact induction.trans (List.prefix_append _ _)

theorem Operand.eq_of_unbroken {name : List Char} (operand : Operand name text)
    (unbroken : ' ' ∉ text) : name = text := by
  cases operand with
  | whole => rfl
  | besideNull => exact absurd (List.mem_append_right _ List.mem_cons_self) unbroken

/-- No type name begins like the text. -/
def StartsApart (text : List Char) : Prop :=
  Text.Begins (fun first => first.toNat < 128 ∧ first.isUpper = false) text

instance (text : List Char) : Decidable (StartsApart text) :=
  inferInstanceAs (Decidable (Text.Begins _ text))

theorem not_operand_of_startsApart (named : IsTypeName name) (apart : StartsApart text) :
    ¬ Operand name.toList text := by
  intro operand
  obtain ⟨first, rest, split⟩ := List.exists_cons_of_ne_nil named.nonempty
  obtain ⟨more, rfl⟩ := operand.isPrefix
  rw [split] at apart
  obtain ⟨ascii, small⟩ := apart first rfl
  have upper := named.initial first (by rw [split]; rfl) ascii
  rw [small] at upper
  cases upper

theorem not_operand_of_last (named : IsTypeName name) {front : List Char} {last : Char}
    (apart : ¬ Text.IsWordChar last) (other : last ≠ 'l') :
    ¬ Operand name.toList (front ++ [last]) := by
  intro operand
  generalize whole : front ++ [last] = text at operand
  cases operand with
  | whole =>
      have member : last ∈ name.toList :=
        whole ▸ List.mem_append_right _ List.mem_cons_self
      exact apart (named.letters last member)
  | @besideNull inner _ =>
      have null : orNull inner = inner ++ " | nul".toList ++ ['l'] := by
        simp [orNull]
      rw [null] at whole
      have ends : [last] = ['l'] := List.append_inj_right' whole rfl
      exact other (List.singleton_inj.mp ends)

end

/-! The alternatives of a type. -/

section

variable {name : String}

/-- The one scalar type with a name that a declaration could have. -/
def scalarName : String := "Blob"

theorem not_operand_primitiveText (named : IsTypeName name) (other : name ≠ scalarName)
    (kind : Primitive) : ¬ Operand name.toList (primitiveText kind) := by
  cases kind with
  | binary =>
      intro operand
      exact other (String.toList_inj.mp (operand.eq_of_unbroken (by decide)))
  | string | number | integer | boolean | dateTime =>
      exact not_operand_of_startsApart named (by decide)

theorem not_operand_arrayText (named : IsTypeName name) (element : List Char) :
    ¬ Operand name.toList (arrayText element) := by
  have closing : ∃ front, arrayText element = front ++ [']'] := by
    unfold arrayText
    split
    · exact ⟨'(' :: element ++ ")[".toList, by simp⟩
    · exact ⟨element ++ ['['], by simp⟩
  obtain ⟨front, written⟩ := closing
  rw [written]
  exact not_operand_of_last named (by decide) (by decide)

theorem not_operand_recordText (named : IsTypeName name) (values : List Char) :
    ¬ Operand name.toList (recordText values) :=
  not_operand_of_last named (by decide) (by decide)

theorem blank_not_mem (named : IsTypeName name) : ' ' ∉ name.toList :=
  fun blank => absurd (named.letters _ blank) (by decide)

theorem operand_typeText_iff (named : IsTypeName name) (other : name ≠ scalarName)
    {type : TypeRef} (names : ∀ mentioned ∈ type.names, IsTypeName mentioned) :
    Operand name.toList (typeText type) ↔ name ∈ type.alternatives := by
  induction type with
  | primitive kind =>
      exact iff_of_false (not_operand_primitiveText named other kind) nofun
  | named mentioned =>
      have unbroken := blank_not_mem (names mentioned List.mem_cons_self)
      rw [TypeRef.alternatives, List.mem_singleton]
      constructor
      · exact fun operand => String.toList_inj.mp (operand.eq_of_unbroken unbroken)
      · rintro rfl
        exact .whole
  | array element =>
      exact iff_of_false (not_operand_arrayText named _) nofun
  | map values =>
      exact iff_of_false (not_operand_recordText named _) nofun
  | untypedMap =>
      exact iff_of_false (not_operand_recordText named _) nofun
  | nullable inner induction =>
      rw [TypeRef.alternatives, ← induction names, typeText]
      refine ⟨fun operand => ?_, .besideNull⟩
      generalize whole : orNull (typeText inner) = text at operand
      cases operand with
      | whole =>
          refine absurd ?_ (blank_not_mem named)
          rw [← whole]
          exact List.mem_append_right _ List.mem_cons_self
      | besideNull operand =>
          exact List.append_cancel_right whole ▸ operand

end

/-! Literals. -/

theorem startsApart_of_value {text : List Char} (begins : BeginsValue text) :
    StartsApart text := by
  obtain ⟨first, rest, rfl, value⟩ := begins
  rintro _ ⟨⟩
  have which : (first = '"' ∨ first = '-') ∨ first.isDigit = true := by
    simpa [beginsValue] using value
  rcases which with (rfl | rfl) | digit
  · decide
  · decide
  · exact ⟨Text.ascii_of_isDigit digit, Text.not_upper_of_isDigit digit⟩

theorem startsApart_literal (value : Literal) : StartsApart value.text.toList := by
  cases value with
  | string value => exact startsApart_of_value (beginsValue_string value)
  | number value =>
      rw [Literal.text, String.toList_ofList]
      exact startsApart_of_value (beginsValue_number value)
  | boolean value => cases value <;> decide
  | null => decide

/-! The alternatives of a declaration. -/

section

variable {name : String}

def HasOperand (alternatives : List (List Char)) (name : String) : Prop :=
  ∃ text ∈ alternatives, Operand name.toList text

theorem hasOperand_withNull (named : IsTypeName name) {nullable : Bool}
    {alternatives : List (List Char)} :
    HasOperand (withNull nullable alternatives) name ↔ HasOperand alternatives name := by
  unfold withNull
  split
  · have null : ¬ Operand name.toList "null".toList :=
      not_operand_of_startsApart named (by decide)
    simp only [HasOperand, List.mem_append, List.mem_singleton, or_and_right, exists_or,
      exists_eq_left, null, or_false]
  · rfl

theorem hasOperand_map_typeText (named : IsTypeName name) (other : name ≠ scalarName)
    (types : List TypeRef)
    (names : ∀ mentioned ∈ types.flatMap (·.names), IsTypeName mentioned) :
    HasOperand (types.map typeText) name ↔ name ∈ types.flatMap (·.alternatives) := by
  simp only [HasOperand, List.mem_map, exists_exists_and_eq_and, List.mem_flatMap]
  refine exists_congr fun type => and_congr_right fun member => ?_
  exact operand_typeText_iff named other fun mentioned inside =>
    names mentioned (List.mem_flatMap.mpr ⟨type, member, inside⟩)

theorem not_hasOperand_literals (named : IsTypeName name) (values : List Literal) :
    ¬ HasOperand (literalAlternatives values) name := by
  rintro ⟨_, member, operand⟩
  obtain ⟨value, _, rfl⟩ := List.mem_map.mp member
  exact not_operand_of_startsApart named (startsApart_literal value) operand

/-- The types that a definition is written with, where it is an alias of types. -/
def writtenTypes : Definition → List TypeRef
  | .primitive kind => [.primitive kind]
  | .array element => [.array element]
  | .map values => [.map values]
  | .untypedMap => [.untypedMap]
  | .union variants => variants
  | .reference target => [target]
  | .enum _ | .object _ => []

theorem alternatives_eq (definition : Definition) :
    definition.alternatives = (writtenTypes definition).flatMap (·.alternatives) := by
  cases definition <;> simp [Definition.alternatives, writtenTypes, TypeRef.alternatives]

theorem names_writtenTypes (definition : Definition) :
    (writtenTypes definition).flatMap (·.names) ⊆ definition.names := by
  cases definition <;> simp [Definition.names, Definition.types, writtenTypes, TypeRef.names]

theorem hasOperand_iff (named : IsTypeName name) (other : name ≠ scalarName)
    {options : EmitOptions} {nullable : Bool} {definition : Definition}
    (names : ∀ mentioned ∈ definition.names, IsTypeName mentioned)
    {alternatives : List (List Char)}
    (body : bodyOf options nullable definition = .typeAlias alternatives) :
    HasOperand alternatives name ↔ name ∈ definition.alternatives := by
  have written : ∀ mentioned ∈ (writtenTypes definition).flatMap (·.names),
      IsTypeName mentioned := fun mentioned member =>
    names mentioned (names_writtenTypes definition member)
  cases definition with
  | object => cases body
  | enum values =>
      simp only [bodyOf] at body
      split at body
      · cases body
      · cases body
        rw [hasOperand_withNull named]
        exact iff_of_false (not_hasOperand_literals named values) nofun
  | union | primitive | array | map | untypedMap | reference =>
      cases body
      rw [hasOperand_withNull named, alternatives_eq]
      exact hasOperand_map_typeText named other (writtenTypes _) written

end

/-! The aliases of a file. -/

def IsAlias (declarations : List Declaration) (name : String)
    (alternatives : List (List Char)) : Prop :=
  ∃ printed ∈ declarations, printed.name = name ∧ printed.body = .typeAlias alternatives

/-- One alias has another among its alternatives. -/
def StandsFor (declarations : List Declaration) (name alternative : String) : Prop :=
  (∃ alternatives, IsAlias declarations name alternatives ∧
    HasOperand alternatives alternative) ∧
    ∃ alternatives, IsAlias declarations alternative alternatives

theorem isAlias_iff {options : EmitOptions} {model : Model} {name : String}
    {alternatives : List (List Char)} :
    IsAlias (model.declarations.map (Declaration.ofModel options)) name alternatives ↔
      ∃ source ∈ model.declarations, source.name = name ∧
        bodyOf options source.nullable source.definition = .typeAlias alternatives := by
  simp [IsAlias, Declaration.ofModel]

theorem exists_body_of_alternative {definition : Definition} {name : String}
    (among : name ∈ definition.alternatives) (options : EmitOptions) (nullable : Bool) :
    ∃ alternatives, bodyOf options nullable definition = .typeAlias alternatives := by
  cases definition with
  | union | reference => exact ⟨_, rfl⟩
  | primitive | enum | object | array | map | untypedMap => cases among

end Schemata.TypeScript

namespace Schemata.Resolution.Resolved

open TypeScript Relation

variable {forest : Forest} {assignment : Assignment} {model : Model}

theorem alternatives_eq (resolved : Resolved forest assignment model)
    {root : String × Schema} (declared : root ∈ forest.roots)
    {node : Position × Schema} (member : node ∈ namedNodes root) :
    (definitionOf assignment.nameOf node.1 node.2).result.alternatives =
      (alternatives node.1 node.2).map assignment.nameOf :=
  alternatives_definitionOf _ _ (resolved.writesRoots declared member)

theorem alternative_named (resolved : Resolved forest assignment model)
    {position alternative : Position}
    (step : Alternative forest position alternative) :
    ∃ source ∈ model.declarations, source.name = assignment.nameOf position ∧
      assignment.nameOf alternative ∈ source.definition.alternatives := by
  obtain ⟨root, declared, schema, member, among⟩ := step
  obtain ⟨source, kept, name, definition⟩ := resolved.mem_of_named declared member
  refine ⟨source, kept, name, ?_⟩
  rw [definition, resolved.alternatives_eq declared member]
  exact List.mem_map_of_mem among

theorem alternative_of_mem (resolved : Resolved forest assignment model)
    {source : Declaration} (member : source ∈ model.declarations) {name : String}
    (among : name ∈ source.definition.alternatives) :
    ∃ position alternative, Alternative forest position alternative ∧
      assignment.nameOf position = source.name ∧ assignment.nameOf alternative = name := by
  obtain ⟨root, declared, node, inside, named, definition⟩ := resolved.node_of_mem member
  rw [definition, resolved.alternatives_eq declared inside] at among
  obtain ⟨alternative, step, rfl⟩ := List.mem_map.mp among
  exact ⟨node.1, alternative, ⟨root, declared, node.2, inside, step⟩, named.symm, rfl⟩

theorem positions_of_alternative (resolved : Resolved forest assignment model)
    {position alternative : Position} (step : Alternative forest position alternative) :
    position ∈ positions forest ∧ alternative ∈ positions forest := by
  obtain ⟨root, declared, schema, member, among⟩ := step
  have mentioned : alternative ∈ mentionsOf (position, schema) :=
    alternatives_subset position schema among
  exact ⟨mem_positions_of_named declared member,
    resolved.mention_mem_positions declared member mentioned⟩

variable (options : EmitOptions)

/-- The declaration at the position is printed as an alias. -/
def PrintedAsAlias (model : Model) (name : String) : Prop :=
  ∃ alternatives,
    IsAlias (model.declarations.map (TypeScript.Declaration.ofModel options)) name
      alternatives

theorem standsFor_iff (resolved : Resolved forest assignment model)
    (succeeds : forest.resolve = .ok model)
    (unnamed : ∀ source ∈ model.declarations, source.name ≠ scalarName)
    {name alternative : String} :
    StandsFor (model.declarations.map (TypeScript.Declaration.ofModel options)) name
        alternative ↔
      Relation.Map (fun here there => Alternative forest here there ∧
          PrintedAsAlias options model (assignment.nameOf there))
        assignment.nameOf assignment.nameOf name alternative := by
  have operand : ∀ source ∈ model.declarations, ∀ target ∈ model.declarations,
      ∀ alternatives,
        bodyOf options source.nullable source.definition = .typeAlias alternatives →
        (HasOperand alternatives target.name ↔
          target.name ∈ source.definition.alternatives) :=
    fun source member target targetMember alternatives body =>
      hasOperand_iff (isTypeName_of_resolve succeeds target targetMember)
        (unnamed target targetMember) (isTypeName_of_mentioned succeeds source member) body
  constructor
  · rintro ⟨⟨alternatives, printed, has⟩, alias_⟩
    have reached := alias_
    obtain ⟨source, member, rfl, body⟩ := isAlias_iff.mp printed
    obtain ⟨_, other⟩ := alias_
    obtain ⟨target, targetMember, rfl, -⟩ := isAlias_iff.mp other
    obtain ⟨here, there, step, hereName, thereName⟩ := resolved.alternative_of_mem member
      ((operand source member target targetMember alternatives body).mp has)
    exact ⟨here, there, ⟨step, thereName ▸ reached⟩, hereName, thereName⟩
  · rintro ⟨here, there, ⟨step, alias_⟩, rfl, rfl⟩
    have reached := alias_
    obtain ⟨source, member, name, among⟩ := resolved.alternative_named step
    obtain ⟨alternatives, body⟩ :=
      exists_body_of_alternative among options source.nullable
    obtain ⟨_, other⟩ := alias_
    obtain ⟨target, targetMember, same, -⟩ := isAlias_iff.mp other
    rw [← same] at among
    have has := (operand source member target targetMember alternatives body).mpr among
    exact ⟨⟨alternatives, isAlias_iff.mpr ⟨source, member, name, body⟩, same ▸ has⟩,
      reached⟩

end Schemata.Resolution.Resolved

namespace Schemata.TypeScript

open Relation Resolution

/-- The aliases of a file reach types of their own exactly if no root is an alternative of
itself on the way through others. (The resolver follows references, but no unions.) -/
theorem aliases_cyclic_iff {forest : Forest} {model : Model} (options : EmitOptions)
    (succeeds : forest.resolve = .ok model)
    (unnamed : ∀ source ∈ model.declarations, source.name ≠ scalarName) :
    (∃ name, TransGen
        (StandsFor (model.declarations.map (Declaration.ofModel options))) name name) ↔
      ∃ root, TransGen forest.Offers root root := by
  obtain ⟨assignment, resolved⟩ := resolved_of_ok succeeds
  have same : StandsFor (model.declarations.map (Declaration.ofModel options)) =
      Relation.Map (fun here there => Alternative forest here there ∧
          Resolved.PrintedAsAlias options model (assignment.nameOf there))
        assignment.nameOf assignment.nameOf := by
    funext name alternative
    exact propext (resolved.standsFor_iff options succeeds unnamed)
  rw [same, exists_cycle_map_iff, ← exists_cycle_alternative_iff]
  · refine exists_cycle_restrict_iff fun here there step => ?_
    obtain ⟨source, member, name, among⟩ := resolved.alternative_named step
    obtain ⟨alternatives, body⟩ := exists_body_of_alternative among options source.nullable
    exact ⟨alternatives, isAlias_iff.mpr ⟨source, member, name, body⟩⟩
  · rintro _ here there _ ⟨arrives, -⟩ ⟨leaves, -⟩ named
    exact resolved.named.nameOf_inj (resolved.positions_of_alternative arrives).2
      (resolved.positions_of_alternative leaves).1 named

/-- A union with itself among its members. -/
def riddle : Forest where
  roots :=
    [("riddle", .union ⟨false, .empty, ⟨["riddle"]⟩⟩
      [.reference ⟨false, .empty, ⟨["riddle", "0"]⟩⟩ "riddle",
        .primitive ⟨false, .empty, ⟨["riddle", "1"]⟩⟩ .string])]
  distinct := by decide

theorem aliases_cyclic_iff_riddle : ∃ model, riddle.resolve = .ok model ∧
    ∀ options, ∃ name, TransGen
      (StandsFor (model.declarations.map (Declaration.ofModel options))) name name := by
  obtain ⟨model, succeeds, names⟩ : ∃ model, riddle.resolve = .ok model ∧
      model.declarations.map (·.name) = ["Riddle"] :=
    Forest.exists_model_of_read (by decide +kernel)
  have unnamed : ∀ source ∈ model.declarations, source.name ≠ scalarName := by
    intro source member
    have named : source.name ∈ ["Riddle"] := names ▸ List.mem_map_of_mem member
    rw [List.mem_singleton.mp named]
    decide
  exact ⟨model, succeeds, fun options => (aliases_cyclic_iff options succeeds unnamed).mpr
    ⟨"riddle", .single ⟨_, List.mem_singleton_self _, List.mem_cons_self⟩⟩⟩

end Schemata.TypeScript
