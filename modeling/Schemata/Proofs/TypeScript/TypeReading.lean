import Schemata.Proofs.Emission.Vocabulary
import Schemata.Proofs.TypeScript.TypeGrammar
import Schemata.Proofs.TypeScript.TypeWord

namespace Schemata.TypeScript

open Text

/-! Written types are read back: the text of a type has one reading, and it means the type. -/

def vocabulary : Vocabulary where
  primitives := [("string", .string), ("number", .number), ("boolean", .boolean),
    ("Blob", .binary)]
  others := ["Record", "unknown", "null"]

/-- The primitive type that is written instead of another. -/
def written : Primitive → Primitive
  | .dateTime => .string
  | .integer => .number
  | kind => kind

namespace TypeExpression

def type? : TypeExpression → Option TypeRef
  | word text => vocabulary.type? (String.ofList text)
  | array element => do return .array (← element.type?)
  | generic name key values =>
      if name = "Record".toList ∧ key = word "string".toList then
        if values = word "unknown".toList then some .untypedMap
        else do return .map (← values.type?)
      else none
  | either left right =>
      if right = word "null".toList then do return .nullable (← left.type?) else none

/-- The expression of a type. -/
def ofType : TypeRef → TypeExpression
  | .primitive kind => word (primitiveText kind)
  | .named name => word name.toList
  | .array element => array (ofType element)
  | .map values => generic "Record".toList (word "string".toList) (ofType values)
  | .untypedMap =>
      generic "Record".toList (word "string".toList) (word "unknown".toList)
  | .nullable inner => either (ofType inner) (word "null".toList)

theorem type?_ofType {type : TypeRef}
    (named : ∀ name ∈ type.names, vocabulary.Admits name) :
    (ofType type).type? = some (type.mapPrimitives written) := by
  induction type with
  | primitive kind => cases kind <;> rfl
  | named name =>
      have admits := named name List.mem_cons_self
      rw [ofType, type?, String.ofList_toList, admits.type?]
      rfl
  | array element induction =>
      rw [ofType, type?, induction named]
      rfl
  | map values induction =>
      have known : ofType values ≠ word "unknown".toList := by
        intro same
        have read := induction named
        rw [same] at read
        cases read
      rw [ofType, type?, if_pos ⟨rfl, rfl⟩, if_neg known, induction named]
      rfl
  | untypedMap => rfl
  | nullable inner induction =>
      rw [ofType, type?, if_pos rfl, induction named]
      rfl

end TypeExpression

def ReadsAs (text : List Char) (tree : TypeExpression) : Prop :=
  Derives .loose (lexemes breaksType text) tree

/-! The expressions of what is written. Without a bar the text is an operand. -/

structure Expresses (text : List Char) (tree : TypeExpression) : Prop where
  reads : ReadsAs text tree
  tight : '|' ∉ text → Derives .tight (lexemes breaksType text) tree

variable {text : List Char} {tree : TypeExpression}

theorem expresses_of_tight (tight : Derives .tight (lexemes breaksType text) tree) :
    Expresses text tree where
  reads := .operand tight
  tight _ := tight

theorem expresses_word (word : Text.IsWordBetween breaksType text) : Expresses text (.word text) := by
  apply expresses_of_tight
  rw [lexemes_word word.1 word.2]
  exact .word text

theorem Expresses.arrayText (element : Expresses text tree) :
    Expresses (arrayText text) (.array tree) := by
  apply expresses_of_tight
  have brackets (operand : List Char) : lexemes breaksType (operand ++ "[]".toList) =
      lexemes breaksType operand ++ [.mark '[', .mark ']'] :=
    lexemes_mark rfl (by decide) operand [']']
  unfold TypeScript.arrayText
  split
  -- A bar anywhere in the element puts it in a group, an operand or not.
  · have group : lexemes breaksType ('(' :: text ++ [')']) =
        .mark '(' :: lexemes breaksType text ++ [.mark ')'] :=
      lexemes_enclosed rfl rfl (by decide) text
    have parts : '(' :: text ++ ")[]".toList = ('(' :: text ++ [')']) ++ "[]".toList := by simp
    rw [parts, brackets, group]
    exact .array (.group element.reads)
  · next barless =>
    rw [brackets]
    exact .array (element.tight barless)

theorem Expresses.recordText (values : ReadsAs text tree) :
    Expresses (recordText text)
      (.generic "Record".toList (.word "string".toList) tree) := by
  apply expresses_of_tight
  have opening : lexemes breaksType "Record<string,".toList =
      [.word "Record".toList, .mark '<', .word "string".toList, .mark ','] := by decide
  have parts : lexemes breaksType (TypeScript.recordText text) =
      lexemes breaksType "Record<string,".toList ++
        (lexemes breaksType text ++ [.mark '>']) :=
    calc lexemes breaksType (TypeScript.recordText text)
        = lexemes breaksType "Record<string,".toList ++ lexemes breaksType (text ++ ['>']) :=
          lexemes_blank rfl "Record<string,".toList _
      _ = _ := congrArg _ (lexemes_mark rfl (by decide) text [])
  rw [parts, opening]
  exact .generic _ (.operand (.word _)) values

theorem Expresses.orNull (inner : ReadsAs text tree) :
    Expresses (orNull text) (.either tree (.word "null".toList)) where
  reads := by
    have bar : lexemes breaksType "| null".toList = [.mark '|', .word "null".toList] := by
      decide
    have parts : lexemes breaksType (TypeScript.orNull text) =
        lexemes breaksType text ++ lexemes breaksType "| null".toList :=
      lexemes_blank rfl text _
    rw [ReadsAs, parts, bar]
    exact .either inner (.word _)
  tight barless := absurd (List.mem_append_right text (by decide)) barless

theorem expresses_typeText {type : TypeRef}
    (named : ∀ name ∈ type.names, vocabulary.Admits name) :
    Expresses (typeText type) (.ofType type) := by
  induction type with
  | primitive kind => exact expresses_word (by cases kind <;> decide)
  | named name =>
      have admits := named name List.mem_cons_self
      exact expresses_word (Text.isWordBetween_of_isWordText (fun _ => not_breaksType)
        (mt String.toList_eq_nil_iff.mp admits.nonempty) admits.letters)
  | array element induction => exact (induction named).arrayText
  | map values induction => exact .recordText (induction named).reads
  | untypedMap => exact .recordText (expresses_word (by decide)).reads
  | nullable inner induction => exact .orNull (induction named).reads

/-- Primitive types that are identified are written the same. -/
theorem typeText_mapPrimitives (type : TypeRef) :
    typeText (type.mapPrimitives written) = typeText type := by
  induction type with
  | primitive kind => cases kind <;> rfl
  | named | untypedMap => rfl
  | array element induction | map element induction | nullable element induction =>
      rw [TypeRef.mapPrimitives, typeText, typeText, induction]

/-- The text of a type has one reading, which means the type but for the primitive types that
are identified. Types that mean something else have another text. -/
theorem typeText_reads_back {type : TypeRef}
    (named : ∀ name ∈ type.names, vocabulary.Admits name) :
    (∃ tree : TypeExpression, tree.type? = some (type.mapPrimitives written) ∧
      ∀ other, ReadsAs (typeText type) other ↔ other = tree) ∧
    ∀ other : TypeRef, (∀ name ∈ other.names, vocabulary.Admits name) →
      (typeText type = typeText other ↔
        type.mapPrimitives written = other.mapPrimitives written) := by
  have reads := (expresses_typeText named).reads
  have means := TypeExpression.type?_ofType named
  refine ⟨⟨_, means, fun other => ?_⟩, fun other alsoNamed => ⟨fun same => ?_, fun same => ?_⟩⟩
  · exact ⟨fun also_ => also_.unique reads, fun same => same ▸ reads⟩
  · have alsoReads := (expresses_typeText alsoNamed).reads
    rw [← same] at alsoReads
    have trees : TypeExpression.ofType type = .ofType other := reads.unique alsoReads
    rw [trees, TypeExpression.type?_ofType alsoNamed] at means
    exact (Option.some.inj means).symm
  · rw [← typeText_mapPrimitives, same, typeText_mapPrimitives]

theorem typeText_reads_back_nested :
    let pets : TypeRef := .array (.map (.nullable (.array (.nullable (.named "Pet")))))
    (∀ name ∈ pets.names, vocabulary.Admits name) ∧
      typeText pets = "(Record<string, (Pet | null)[] | null>)[]".toList ∧
      ∃ tree : TypeExpression, tree.type? = some pets ∧ ReadsAs (typeText pets) tree := by
  intro pets
  have named : ∀ name ∈ pets.names, vocabulary.Admits name := by
    intro name member
    obtain rfl := List.mem_singleton.mp member
    exact ⟨by decide, by decide, by decide⟩
  obtain ⟨⟨tree, means, reads⟩, -⟩ := typeText_reads_back named
  exact ⟨named, by decide, tree, means, (reads tree).mpr rfl⟩

end Schemata.TypeScript
