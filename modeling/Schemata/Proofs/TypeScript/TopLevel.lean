import Schemata.Proofs.TypeScript.Code

namespace Schemata.TypeScript

open Text

/-! The alternatives of a type in code: what is found between the bars at its top level. -/

def topLevel (text : List Char) : List (List Char) :=
  (cut '|' text).map unpadded

def nullText : List Char :=
  "null".toList

/-- No bar separates in the text, and no blanks are around it. -/
structure IsSingle (text : List Char) : Prop where
  counts : Counts '|' 0 text text
  compact : IsCompact text

theorem topLevel_intercalate {texts : List (List Char)} (present : texts ≠ [])
    (single : ∀ text ∈ texts, IsSingle text) :
    topLevel (" | ".toList.intercalate texts) = texts := by
  have blank : Counts '|' 0 [' '] [' '] := counts_padding (by decide) (by decide)
  -- Behind a bar the first text has a blank before it.
  suffices general : ∀ lead, IsPadding lead → Counts '|' 0 lead lead →
      topLevel (lead ++ " | ".toList.intercalate texts) = texts from
    general [] (by decide) counts_nil
  induction texts with
  | nil => exact absurd rfl present
  | cons text rest induction =>
      obtain ⟨here, later⟩ := List.forall_mem_cons.mp single
      intro lead padding counts
      cases rest with
      | nil =>
          rw [List.intercalate_singleton, topLevel, cut_of_counts (counts.append here.counts),
            List.map_singleton, unpadded_behind padding here.compact]
      | cons next more =>
          have parts : lead ++ " | ".toList.intercalate (text :: next :: more) =
              (lead ++ text ++ [' ']) ++ '|' ::
                ([' '] ++ " | ".toList.intercalate (next :: more)) := by
            simp [List.intercalate_cons_cons]
          rw [topLevel, parts,
            cut_append_separator ((counts.append here.counts).append blank) (by decide),
            List.map_cons, unpadded_padded padding here.compact (by decide)]
          exact congrArg _ (induction (List.cons_ne_nil _ _) later [' '] (by decide) blank)

theorem isSingle_null : IsSingle nullText :=
  ⟨counts_of_isWordText (by decide) (by decide), by decide⟩

theorem withNull_eq_append (nullable : Bool) (texts : List (List Char)) :
    withNull nullable texts = texts ++ if nullable then [nullText] else [] := by
  cases nullable with
  | false => exact (List.append_nil texts).symm
  | true => rfl

theorem isSingle_withNull {nullable : Bool} {texts : List (List Char)}
    (single : ∀ text ∈ texts, IsSingle text) :
    ∀ text ∈ withNull nullable texts, IsSingle text := by
  cases nullable with
  | false => exact single
  | true =>
      exact List.forall_mem_append.mpr ⟨single, List.forall_mem_singleton.mpr isSingle_null⟩

theorem withNull_ne_nil {nullable : Bool} {texts : List (List Char)} (present : texts ≠ []) :
    withNull nullable texts ≠ [] := by
  cases nullable with
  | false => exact present
  | true => exact List.append_ne_nil_of_left_ne_nil present _

theorem null_mem_topLevel_iff {texts : List (List Char)}
    (single : ∀ text ∈ texts, IsSingle text) :
    nullText ∈ topLevel (" | ".toList.intercalate texts) ↔ nullText ∈ texts := by
  cases texts with
  | nil => exact iff_of_false (by decide) nofun
  | cons => rw [topLevel_intercalate (List.cons_ne_nil _ _) single]

/-! Literals. -/

section

variable {text : List Char}

theorem isCompact_of_class (nonempty : text ≠ []) (kind : Char → Bool)
    (excludes : [' ', '\n'].any kind = false) (within : ∀ char ∈ text, kind char = true) :
    IsCompact text := by
  refine isCompact_of_visible nonempty fun char member => ?_
  rw [Bool.eq_false_iff]
  intro padding
  have among : char ∈ [' ', '\n'] := by simpa [isPadding] using padding
  exact List.any_eq_false.mp excludes char among (within char member)

theorem isCompact_of_isWordText (nonempty : text ≠ []) (word : IsWordText text) :
    IsCompact text :=
  isCompact_of_class nonempty (fun char => decide (IsWordChar char)) (by decide)
    fun char member => decide_eq_true (word char member)

theorem BeginsValue.ne_nil (begins : BeginsValue text) : text ≠ [] := by
  obtain ⟨_, _, rfl, _⟩ := begins
  exact List.cons_ne_nil _ _

theorem BeginsValue.ne_null (begins : BeginsValue text) : text ≠ nullText := by
  obtain ⟨_, _, rfl, value⟩ := begins
  intro same
  rw [(List.cons.inj same).1] at value
  exact absurd value (by decide)

end

theorem isCompact_literal (value : Literal) : IsCompact value.text.toList := by
  cases value with
  | string value =>
      rw [Literal.text, Json.quote, String.toList_ofList]
      exact isCompact_append (by decide : IsCompact ['"']) (by decide : IsCompact ['"']) _
  | number value =>
      rw [Literal.text, String.toList_ofList]
      exact isCompact_of_class (beginsValue_number value).ne_nil isNumeralChar (by decide)
        (isNumeralText_number value)
  | boolean value => cases value <;> decide
  | null => decide

theorem isSingle_literal (value : Literal) : IsSingle value.text.toList :=
  ⟨counts_literal (by decide) value, isCompact_literal value⟩

theorem literal_eq_null_iff {value : Literal} :
    value.text.toList = nullText ↔ value = .null := by
  constructor
  · intro same
    cases value with
    | string value => exact absurd same (beginsValue_string value).ne_null
    | number value =>
        rw [Literal.text, String.toList_ofList] at same
        exact absurd same (beginsValue_number value).ne_null
    | boolean value => cases value <;> exact absurd same (by decide)
    | null => rfl
  · rintro rfl
    rfl

/-! Types. -/

def alternativeTexts : TypeRef → List (List Char)
  | .nullable inner => alternativeTexts inner ++ [nullText]
  | type => [typeText type]

theorem alternativeTexts_ne_nil (type : TypeRef) : alternativeTexts type ≠ [] := by
  cases type with
  | nullable inner => exact List.append_ne_nil_of_right_ne_nil _ (List.cons_ne_nil _ _)
  | primitive | named | array | map | untypedMap => exact List.cons_ne_nil _ _

theorem intercalate_alternativeTexts (type : TypeRef) :
    " | ".toList.intercalate (alternativeTexts type) = typeText type := by
  induction type with
  | nullable inner induction =>
      rw [alternativeTexts, intercalate_append_of_ne_nil _ (alternativeTexts_ne_nil inner)
        (List.cons_ne_nil _ _), induction]
      exact List.append_assoc _ _ _
  | primitive | named | array | map | untypedMap => exact List.intercalate_singleton

/-- A type stands for its alternatives, whatever else is behind it. -/
theorem intercalate_flatMap_alternativeTexts (types : List TypeRef) (more : List (List Char)) :
    " | ".toList.intercalate (types.flatMap alternativeTexts ++ more) =
      " | ".toList.intercalate (types.map typeText ++ more) := by
  cases types with
  | nil => rfl
  | cons type rest =>
      have each : ((type :: rest).flatMap alternativeTexts).flatMap (· ++ " | ".toList) =
          ((type :: rest).map typeText).flatMap (· ++ " | ".toList) := by
        rw [List.flatMap_assoc, List.flatMap_map]
        refine List.flatMap_congr fun type _ => ?_
        rw [flatMap_eq_intercalate _ (alternativeTexts_ne_nil type), intercalate_alternativeTexts]
      have some_text : (type :: rest).flatMap alternativeTexts ++ more ≠ [] :=
        List.append_ne_nil_of_left_ne_nil
          (List.append_ne_nil_of_left_ne_nil (alternativeTexts_ne_nil type) _) _
      have some_type : (type :: rest).map typeText ++ more ≠ [] := List.cons_ne_nil _ _
      -- With a bar behind each text the sides are one.
      have barred : " | ".toList.intercalate ((type :: rest).flatMap alternativeTexts ++ more) ++
          " | ".toList =
            " | ".toList.intercalate ((type :: rest).map typeText ++ more) ++ " | ".toList := by
        rw [← flatMap_eq_intercalate _ some_text, ← flatMap_eq_intercalate _ some_type,
          List.flatMap_append, List.flatMap_append, each]
      exact List.append_cancel_right barred

section

variable {type : TypeRef}

theorem isCompact_arrayText {element : List Char} (compact : IsCompact element) :
    IsCompact (arrayText element) := by
  unfold arrayText
  split
  · exact isCompact_append (by decide : IsCompact ['(']) (by decide : IsCompact ")[]".toList)
      element
  · have whole := isCompact_append compact (by decide : IsCompact "[]".toList) []
    rwa [List.append_nil] at whole

theorem isCompact_recordText (values : List Char) : IsCompact (recordText values) :=
  isCompact_append (by decide : IsCompact "Record<string,".toList) (by decide : IsCompact ['>'])
    (' ' :: values)

theorem isCompact_typeText (named : ∀ name ∈ type.names, IsTypeName name) :
    IsCompact (typeText type) := by
  induction type with
  | primitive kind => cases kind <;> decide
  | named name =>
      have own := named name List.mem_cons_self
      exact isCompact_of_isWordText own.nonempty own.letters
  | array element induction => exact isCompact_arrayText (induction named)
  | map values => exact isCompact_recordText _
  | untypedMap => exact isCompact_recordText _
  | nullable inner induction =>
      have whole := isCompact_append (induction named) (by decide : IsCompact nullText)
        " | ".toList
      rwa [List.append_assoc] at whole

theorem isSingle_typeText (named : ∀ name ∈ type.names, IsTypeName name)
    (alone : ∀ inner, type ≠ .nullable inner) : IsSingle (typeText type) :=
  ⟨(counts_typeText (by decide) fun name member => (named name member).letters).2
    fun _ => alone, isCompact_typeText named⟩

theorem isSingle_alternativeTexts (named : ∀ name ∈ type.names, IsTypeName name) :
    ∀ text ∈ alternativeTexts type, IsSingle text := by
  induction type with
  | nullable inner induction =>
      exact List.forall_mem_append.mpr
        ⟨induction named, List.forall_mem_singleton.mpr isSingle_null⟩
  | primitive | named | array | map | untypedMap =>
      exact List.forall_mem_singleton.mpr (isSingle_typeText named nofun)

theorem typeText_ne_null (named : ∀ name ∈ type.names, IsTypeName name)
    (alone : ∀ inner, type ≠ .nullable inner) : typeText type ≠ nullText := by
  intro same
  cases type with
  | primitive kind => cases kind <;> exact absurd same (by decide)
  | named name =>
      have initial := (named name List.mem_cons_self).initial
      rw [show name.toList = nullText from same] at initial
      exact absurd (initial 'n' rfl (by decide)) (by decide)
  | array element =>
      have closing : ']' ∈ arrayText (typeText element) := by
        unfold arrayText
        split <;> exact List.mem_append_right _ (by decide)
      rw [show arrayText (typeText element) = nullText from same] at closing
      exact absurd closing (by decide)
  | map values => exact absurd (List.cons.inj same).1 (by decide)
  | untypedMap => exact absurd (List.cons.inj same).1 (by decide)
  | nullable inner => exact alone inner rfl

theorem null_mem_alternativeTexts_iff (named : ∀ name ∈ type.names, IsTypeName name) :
    nullText ∈ alternativeTexts type ↔ ∃ inner, type = .nullable inner := by
  cases type with
  | nullable inner => exact iff_of_true (List.mem_append_right _ List.mem_cons_self) ⟨inner, rfl⟩
  | primitive | named | array | map | untypedMap =>
      refine iff_of_false (fun member => ?_) nofun
      exact typeText_ne_null named nofun (List.mem_singleton.mp member).symm

theorem topLevel_typeText (named : ∀ name ∈ type.names, IsTypeName name) :
    topLevel (typeText type) = alternativeTexts type := by
  rw [← intercalate_alternativeTexts]
  exact topLevel_intercalate (alternativeTexts_ne_nil type) (isSingle_alternativeTexts named)

example : topLevel "(string | null)[] | null".toList = ["(string | null)[]".toList, nullText] := by
  decide

end

end Schemata.TypeScript
