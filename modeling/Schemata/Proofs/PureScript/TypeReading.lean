import Schemata.Proofs.Emission.Vocabulary
import Schemata.Proofs.PureScript.TypeGrammar
import Schemata.Proofs.PureScript.TypeWord

namespace Schemata.PureScript

open Text

/-! Written types are read back: the text of a type has one reading, which means the type, and
as an argument it is one atom. -/

def vocabulary : Vocabulary where
  primitives := [("String", .string), ("Number", .number), ("Int", .integer),
    ("Boolean", .boolean), ("Blob", .binary)]
  others := ["Array", "Object", "Nullable", "Foreign"]

/-- The primitive type that is written instead of another. -/
def written : Primitive → Primitive
  | .dateTime => .string
  | kind => kind

namespace TypeExpression

def type? : TypeExpression → Option TypeRef
  | word text => vocabulary.type? (String.ofList text)
  | applied function argument =>
      if function = word "Array".toList then do return .array (← argument.type?)
      else if function = word "Object".toList then
        if argument = word "Foreign".toList then some .untypedMap
        else do return .map (← argument.type?)
      else if function = word "Nullable".toList then do return .nullable (← argument.type?)
      else none

/-- The expression of a type. -/
def ofType : TypeRef → TypeExpression
  | .primitive kind => word (primitiveText kind)
  | .named name => word name.toList
  | .array element => applied (word "Array".toList) (ofType element)
  | .map values => applied (word "Object".toList) (ofType values)
  | .untypedMap => applied (word "Object".toList) (word "Foreign".toList)
  | .nullable inner => applied (word "Nullable".toList) (ofType inner)

theorem type?_ofType {type : TypeRef}
    (named : ∀ name ∈ type.names, vocabulary.Admits name) :
    (ofType type).type? = some (type.mapPrimitives written) := by
  induction type with
  | primitive kind => cases kind <;> rfl
  | named name =>
      have admits := named name List.mem_cons_self
      rw [ofType, type?, String.ofList_toList, admits.type?]
      rfl
  | array element induction =>
      rw [ofType, type?, if_pos rfl, induction named]
      rfl
  | map values induction =>
      have known : ofType values ≠ word "Foreign".toList := by
        intro same
        have read := induction named
        rw [same] at read
        cases read
      rw [ofType, type?, if_neg (by decide), if_pos rfl, if_neg known, induction named]
      rfl
  | untypedMap => rfl
  | nullable inner induction =>
      rw [ofType, type?, if_neg (by decide), if_neg (by decide), if_pos rfl, induction named]
      rfl

end TypeExpression

def ReadsAs (extent : Extent) (text : List Char) (tree : TypeExpression) : Prop :=
  Derives extent (lexemes breaksType text) tree

/-! The expressions of what is written. Without a blank the text is an atom. -/

structure Expresses (text : List Char) (tree : TypeExpression) : Prop where
  reads : ReadsAs .application text tree
  atomic : ' ' ∉ text → ReadsAs .atom text tree

variable {text : List Char} {tree : TypeExpression}

theorem expresses_word (word : IsTypeWord text) : Expresses text (.word text) := by
  have atom : ReadsAs .atom text (.word text) := by
    rw [ReadsAs, lexemes_word word.1 word.2]
    exact .word text
  exact ⟨.single atom, fun _ => atom⟩

theorem Expresses.argument (type : Expresses text tree) :
    ReadsAs .atom (argument text) tree := by
  unfold PureScript.argument
  split
  · have group : lexemes breaksType ('(' :: text ++ [')']) =
        .mark '(' :: lexemes breaksType text ++ [.mark ')'] :=
      lexemes_enclosed rfl rfl (by decide) text
    rw [ReadsAs, group]
    exact .group type.reads
  · next blankless => exact type.atomic blankless

theorem Expresses.applied {constructor : List Char} (word : IsTypeWord constructor)
    (type : Expresses text tree) :
    Expresses (applied constructor text) (.applied (.word constructor) tree) where
  reads := by
    rw [ReadsAs, PureScript.applied, lexemes_blank rfl]
    exact .applied (expresses_word word).reads type.argument
  atomic blankless :=
    absurd (List.mem_append_right constructor List.mem_cons_self) blankless

theorem expresses_typeText {type : TypeRef}
    (named : ∀ name ∈ type.names, vocabulary.Admits name) :
    Expresses (typeText type) (.ofType type) := by
  induction type with
  | primitive kind => exact expresses_word (by cases kind <;> decide)
  | named name =>
      have admits := named name List.mem_cons_self
      exact expresses_word (Text.isWordBetween_of_isWordText (fun _ => not_breaksType)
        (mt String.toList_eq_nil_iff.mp admits.nonempty) admits.letters)
  | array element induction => exact (induction named).applied (by decide)
  | map values induction => exact (induction named).applied (by decide)
  | untypedMap =>
      have foreign : Expresses "Foreign".toList _ := expresses_word (by decide)
      exact foreign.applied (by decide)
  | nullable inner induction => exact (induction named).applied (by decide)

/-- The text of a type has one reading, which means the type but for the primitive types that
are identified. As an argument the text is one atom, and a constructor before it is applied
to the whole type. -/
theorem typeText_reads_whole {type : TypeRef}
    (named : ∀ name ∈ type.names, vocabulary.Admits name) :
    ∃ tree : TypeExpression, tree.type? = some (type.mapPrimitives written) ∧
      (∀ other, ReadsAs .application (typeText type) other ↔ other = tree) ∧
      (∀ other, ReadsAs .atom (argument (typeText type)) other ↔ other = tree) ∧
      ∀ constructor, IsTypeWord constructor → ∀ other,
        ReadsAs .application (applied constructor (typeText type)) other ↔
          other = .applied (.word constructor) tree := by
  have expresses := expresses_typeText named
  refine ⟨_, TypeExpression.type?_ofType named, fun other => ?_, fun other => ?_,
    fun constructor word other => ?_⟩
  · exact ⟨fun reads => reads.unique expresses.reads, fun same => same ▸ expresses.reads⟩
  · have atom := expresses.argument
    exact ⟨fun reads => (Derives.single reads).unique (.single atom), fun same => same ▸ atom⟩
  · have whole := (expresses.applied word).reads
    exact ⟨fun reads => reads.unique whole, fun same => same ▸ whole⟩

theorem typeText_reads_whole_nested :
    let pets : TypeRef := .array (.map (.nullable (.array (.nullable (.named "Pet")))))
    (∀ name ∈ pets.names, vocabulary.Admits name) ∧
      typeText pets = "Array (Object (Nullable (Array (Nullable Pet))))".toList ∧
      ∃ tree : TypeExpression, tree.type? = some pets ∧
        ReadsAs .atom (argument (typeText pets)) tree ∧
        ReadsAs .application (maybeText (typeText pets))
          (.applied (.word "Maybe".toList) tree) := by
  intro pets
  have named : ∀ name ∈ pets.names, vocabulary.Admits name := by
    intro name member
    obtain rfl := List.mem_singleton.mp member
    exact ⟨by decide, by decide, by decide⟩
  obtain ⟨tree, means, -, atom, whole⟩ := typeText_reads_whole named
  have present : IsTypeWord "Maybe".toList := by decide
  exact ⟨named, by decide, tree, means, (atom tree).mpr rfl, (whole _ present _).mpr rfl⟩

end Schemata.PureScript
