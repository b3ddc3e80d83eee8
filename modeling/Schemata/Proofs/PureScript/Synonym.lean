import Schemata.Proofs.PureScript.Import
import Schemata.Proofs.Resolution.Cycle

namespace Schemata.PureScript

/-! Synonyms that use each other. Only newtypes and data types come between the roots of a
module, so a root that is a reference to itself but for arrays and maps is printed as a
synonym that never ends. -/

/-- The words that types are written with besides the names of declarations. -/
def builtIns : List (List Char) :=
  ["Array".toList, "Blob".toList, "Boolean".toList, "Foreign".toList, "Int".toList,
    "Nullable".toList, "Number".toList, "Object".toList, "String".toList]

theorem mem_cons_builtIn {word builtIn : List Char} {rest : List (List Char)}
    (other : word ∉ builtIns) (known : builtIn ∈ builtIns) :
    word ∈ builtIn :: rest ↔ word ∈ rest := by
  have different : word ≠ builtIn := by
    rintro rfl
    exact other known
  rw [List.mem_cons, or_iff_right different]

theorem mem_wordsOf {type : TypeRef} {word : List Char}
    (names : ∀ name ∈ type.names, IsTypeWord name.toList) (other : word ∉ builtIns) :
    word ∈ wordsOf type ↔ ∃ name ∈ type.names, name.toList = word := by
  induction type with
  | primitive kind =>
      have known : primitiveText kind ∈ builtIns := by
        cases kind <;> decide
      rw [wordsOf, mem_cons_builtIn other known]
      simp [TypeRef.names]
  | named name =>
      rw [wordsOf, typeWords, Text.wordsBetween_word (names name List.mem_cons_self)]
      simp [TypeRef.names, eq_comm]
  | array element induction | map values induction | nullable inner induction =>
      rw [wordsOf, mem_cons_builtIn other (by decide), induction names, TypeRef.names]
  | untypedMap =>
      rw [wordsOf, mem_cons_builtIn other (by decide), mem_cons_builtIn other (by decide)]
      simp [TypeRef.names]

theorem mem_typeWords_synonymText {nullable : Bool} {type : TypeRef} {word : List Char}
    (names : ∀ name ∈ type.names, IsTypeWord name.toList) (other : word ∉ builtIns) :
    word ∈ typeWords (synonymText nullable type) ↔
      ∃ name ∈ type.names, name.toList = word := by
  rw [← mem_wordsOf names other, synonymText]
  split
  · rw [typeWords_nullableText, mem_cons_builtIn other (by decide), typeWords_typeText]
  · rw [typeWords_typeText]

/-! The synonyms of a module. -/

def IsSynonym (declarations : List Declaration) (name : String) (right : List Char) :
    Prop :=
  ∃ printed ∈ declarations, printed.name = name ∧ printed.body = .synonym right

/-- The right-hand side of one synonym mentions the name of another. -/
def Uses (declarations : List Declaration) (user used : String) : Prop :=
  (∃ right, IsSynonym declarations user right ∧ used.toList ∈ typeWords right) ∧
    ∃ right, IsSynonym declarations used right

theorem body_eq_synonym_iff (options : EmitOptions) (constructors : Constructors)
    {source : Schemata.Declaration} {right : List Char} :
    (Declaration.ofSource options constructors source).body = .synonym right ↔
      ∃ type, aliased? source.definition = some type ∧
        synonymText source.nullable type = right := by
  cases renames : aliased? source.definition with
  | some type =>
      rw [body_of_aliased options constructors renames]
      simp
  | none =>
      cases shape : source.definition <;> rw [shape] at renames <;> cases renames <;>
        simp [Declaration.ofSource, bodyOf, shape]

theorem isSynonym_iff (options : EmitOptions) (model : Model) {name : String}
    {right : List Char} :
    IsSynonym (Declaration.ofModel options model) name right ↔
      ∃ source ∈ model.declarations, source.name = name ∧
        ∃ type, aliased? source.definition = some type ∧
          synonymText source.nullable type = right := by
  refine (Declaration.exists_mem_ofModelFrom options _ ?_).symm
  intro source _ constructors
  rw [body_eq_synonym_iff]
  rfl

end Schemata.PureScript

namespace Schemata.Resolution

open PureScript Relation

/-- Only roots are declared as another name of a type. -/
theorem isSome_aliased?_definitionOf (nameOf : Position → String) (position : Position)
    (schema : Schema) :
    (aliased? (definitionOf nameOf position schema).result).isSome ↔
      ¬ schema.NeedsName := by
  cases schema <;> simp [definitionOf, aliased?, Schema.NeedsName]

theorem needsName_of_shape {root : String × Schema} {shape : Position × Schema}
    (within : shape ∈ shapesWithin ⟨root.1, []⟩ root.2) : shape.2.NeedsName := by
  have among : shape.2 ∈ (shapesWithin ⟨root.1, []⟩ root.2).map Prod.snd :=
    List.mem_map_of_mem within
  rw [map_snd_shapesWithin] at among
  simpa using (List.mem_filter.mp among).2

namespace Resolved

variable {forest : Forest} {assignment : Assignment} {model : Model}

theorem root_of_aliased (resolved : Resolved forest assignment model)
    {source : Declaration} (member : source ∈ model.declarations)
    (renames : (aliased? source.definition).isSome) :
    ∃ root ∈ forest.roots, ¬ root.2.NeedsName ∧
      source = rootDeclaration assignment.nameOf root := by
  obtain ⟨root, declared, ⟨shape, within, rfl⟩ | rfl⟩ := resolved.shape_or_root member
  · exact absurd (needsName_of_shape within)
      ((isSome_aliased?_definitionOf _ _ _).mp renames)
  · exact ⟨root, declared, (isSome_aliased?_definitionOf _ _ _).mp renames, rfl⟩

/-- A synonym mentions exactly the root that it encloses among the roots. -/
theorem typeName_mem_names_iff (resolved : Resolved forest assignment model)
    {root target : String × Schema} (declared : root ∈ forest.roots)
    (plain : ¬ root.2.NeedsName) (targetDeclared : target ∈ forest.roots) :
    typeName target.1 ∈ (rootDeclaration assignment.nameOf root).definition.names ↔
      root.2.enclosed? = some target.1 := by
  have own := root_mem_namedNodes root
  have targetMember : target.1 ∈ forest.roots.map Prod.fst :=
    List.mem_map_of_mem targetDeclared
  rw [← root_mem_mentions ⟨root.1, []⟩ plain, rootDeclaration,
    resolved.names_eq declared own, ← resolved.named.nameOf_root targetMember]
  constructor
  · intro mentioned
    obtain ⟨position, among, same⟩ := List.mem_map.mp mentioned
    obtain rfl := resolved.named.nameOf_inj
      (resolved.mention_mem_positions declared own among)
      (root_mem_positions targetMember) same
    exact among
  · exact fun among => List.mem_map_of_mem among

theorem isSynonym_iff_root (resolved : Resolved forest assignment model)
    (options : EmitOptions) {name : String} {right : List Char} :
    IsSynonym (PureScript.Declaration.ofModel options model) name right ↔
      ∃ root ∈ forest.roots, ¬ root.2.NeedsName ∧ typeName root.1 = name ∧
        ∃ type, aliased? (rootDeclaration assignment.nameOf root).definition = some type ∧
          synonymText root.2.nullable type = right := by
  rw [isSynonym_iff]
  constructor
  · rintro ⟨source, member, rfl, type, renames, written⟩
    obtain ⟨root, declared, plain, rfl⟩ :=
      resolved.root_of_aliased member (by rw [renames]; rfl)
    have name := resolved.named.nameOf_root (List.mem_map_of_mem declared)
    exact ⟨root, declared, plain, name.symm, type, renames, written⟩
  · rintro ⟨root, declared, plain, rfl, type, renames, written⟩
    have name := resolved.named.nameOf_root (List.mem_map_of_mem declared)
    exact ⟨_, resolved.mem_of_root declared, name, type, renames, written⟩

/-- A right-hand side mentions a synonym exactly if its root encloses the one of the
synonym. -/
theorem mem_typeWords_iff_encloses (resolved : Resolved forest assignment model)
    {root target : String × Schema} (declared : root ∈ forest.roots)
    (plain : ¬ root.2.NeedsName) (targetDeclared : target ∈ forest.roots)
    (mentions : ∀ name ∈ (rootDeclaration assignment.nameOf root).definition.names,
      IsTypeWord name.toList)
    (unnamed : (typeName target.1).toList ∉ builtIns) {type : TypeRef}
    (renames : aliased? (rootDeclaration assignment.nameOf root).definition = some type) :
    (typeName target.1).toList ∈ typeWords (synonymText root.2.nullable type) ↔
      root.2.enclosed? = some target.1 := by
  have names := names_of_aliased renames
  rw [← resolved.typeName_mem_names_iff declared plain targetDeclared, names,
    mem_typeWords_synonymText (names ▸ mentions) unnamed]
  simp [String.toList_inj]

theorem uses_iff (resolved : Resolved forest assignment model)
    (succeeds : forest.resolve = .ok model) (options : EmitOptions)
    (unnamed : ∀ source ∈ model.declarations, source.name.toList ∉ builtIns)
    {user used : String} :
    Uses (PureScript.Declaration.ofModel options model) user used ↔
      Relation.Map (fun root target =>
        forest.Encloses root target ∧ forest.IsPlainRoot target) typeName typeName
        user used := by
  have mentions : ∀ root ∈ forest.roots,
      ∀ name ∈ (rootDeclaration assignment.nameOf root).definition.names,
        IsTypeWord name.toList := fun root declared name mentioned =>
    isTypeWord_of_isTypeName
      (isTypeName_of_mentioned succeeds _ (resolved.mem_of_root declared) name mentioned)
  have other : ∀ root ∈ forest.roots, (typeName root.1).toList ∉ builtIns := by
    intro root declared
    rw [← resolved.named.nameOf_root (List.mem_map_of_mem declared)]
    exact unnamed _ (resolved.mem_of_root declared)
  simp only [Uses, resolved.isSynonym_iff_root]
  constructor
  · rintro ⟨⟨_, ⟨root, declared, plain, rfl, type, renames, rfl⟩, mentioned⟩,
      _, target, targetDeclared, targetPlain, rfl, -⟩
    have encloses := (resolved.mem_typeWords_iff_encloses declared plain targetDeclared
      (mentions root declared) (other target targetDeclared) renames).mp mentioned
    exact ⟨root.1, target.1, ⟨⟨root.2, declared, encloses⟩,
      target.2, targetDeclared, targetPlain⟩, rfl, rfl⟩
  · rintro ⟨root, target, ⟨⟨schema, declared, encloses⟩, inner, targetDeclared,
      targetPlain⟩, rfl, rfl⟩
    have plain := Schema.not_needsName_of_enclosed? encloses
    obtain ⟨type, renames⟩ := Option.isSome_iff_exists.mp
      ((isSome_aliased?_definitionOf assignment.nameOf ⟨root, []⟩ schema).mpr plain)
    obtain ⟨targetType, targetRenames⟩ := Option.isSome_iff_exists.mp
      ((isSome_aliased?_definitionOf assignment.nameOf ⟨target, []⟩ inner).mpr targetPlain)
    refine ⟨⟨_, ⟨(root, schema), declared, plain, rfl, type, renames, rfl⟩, ?_⟩,
      _, (target, inner), targetDeclared, targetPlain, rfl, targetType, targetRenames, rfl⟩
    exact (resolved.mem_typeWords_iff_encloses declared plain targetDeclared
      (mentions _ declared) (other _ targetDeclared) renames).mpr encloses

end Resolved

end Schemata.Resolution

namespace Schemata.PureScript

open Relation Resolution

/-- The synonyms of a module are well founded exactly if no root encloses itself on the way
through others. (The resolver turns down a cycle of mere references only.) -/
theorem synonyms_cyclic_iff {forest : Forest} {model : Model} (options : EmitOptions)
    (succeeds : forest.resolve = .ok model)
    (unnamed : ∀ source ∈ model.declarations, source.name.toList ∉ builtIns) :
    (∃ name, TransGen (Uses (Declaration.ofModel options model)) name name) ↔
      ∃ root, TransGen forest.Encloses root root := by
  obtain ⟨assignment, resolved⟩ := resolved_of_ok succeeds
  have same : Uses (Declaration.ofModel options model) =
      Relation.Map (fun root target =>
        forest.Encloses root target ∧ forest.IsPlainRoot target) typeName typeName := by
    funext user used
    exact propext (resolved.uses_iff succeeds options unnamed)
  rw [same, exists_cycle_map_iff]
  · refine exists_cycle_restrict_iff ?_
    rintro root _ ⟨schema, declared, encloses⟩
    exact ⟨schema, declared, Schema.not_needsName_of_enclosed? encloses⟩
  · rintro _ here there _ ⟨-, _, hereDeclared, -⟩ ⟨⟨_, thereDeclared, -⟩, -⟩ named
    exact resolved.named.typeName_inj (List.mem_map_of_mem hereDeclared)
      (List.mem_map_of_mem thereDeclared) named

/-- A list of itself. -/
def echo : Forest where
  roots :=
    [("echo", .array ⟨false, .empty, ⟨["echo"]⟩⟩
      (.reference ⟨false, .empty, ⟨["echo", "items"]⟩⟩ "echo"))]
  distinct := by decide

theorem synonyms_cyclic_iff_echo : ∃ model, echo.resolve = .ok model ∧
    ∀ options, ∃ name,
      TransGen (Uses (Declaration.ofModel options model)) name name := by
  obtain ⟨model, succeeds, names⟩ : ∃ model, echo.resolve = .ok model ∧
      model.declarations.map (·.name) = ["Echo"] :=
    Forest.exists_model_of_read (by decide +kernel)
  have unnamed : ∀ source ∈ model.declarations, source.name.toList ∉ builtIns := by
    intro source member
    have named : source.name ∈ ["Echo"] := names ▸ List.mem_map_of_mem member
    rw [List.mem_singleton.mp named]
    decide
  exact ⟨model, succeeds, fun options => (synonyms_cyclic_iff options succeeds unnamed).mpr
    ⟨"echo", .single ⟨_, List.mem_singleton_self _, rfl⟩⟩⟩

end Schemata.PureScript
