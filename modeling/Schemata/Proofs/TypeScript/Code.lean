import Schemata.Proofs.TypeScript.Comment
import Schemata.Proofs.TypeScript.Cut

namespace Schemata.TypeScript

open Text

/-! The code of a declaration. What is written in it is cut nowhere but at its own bars. -/

/-- Below its comment, the text of the declaration is the code. -/
def Declaration.HasCode (declaration : Declaration) (code : List Char) : Prop :=
  declaration.text = unlines (comment [] declaration.docs) ++ code

def aliasCode (name right : List Char) : List Char :=
  "export type ".toList ++ name ++ " = ".toList ++ right ++ [';']

namespace Declaration

variable {declaration : Declaration}

theorem HasCode.unique {code other : List Char} (has : declaration.HasCode code)
    (also_ : declaration.HasCode other) : code = other := by
  rw [HasCode, has] at also_
  exact List.append_cancel_left also_

theorem hasCode_lines (declaration : Declaration) :
    declaration.HasCode (['\n'].intercalate (declaration.body.lines declaration.name.toList)) := by
  obtain ⟨above, line, char, lines, visible⟩ :=
    declaration.body.exists_lines_eq declaration.name.toList
  rw [HasCode, text, lines, ← List.append_assoc, joinLines_concat visible, List.append_assoc,
    intercalate_append_eq_unlines (by simp)]

theorem hasCode_typeAlias {alternatives : List (List Char)}
    (body : declaration.body = .typeAlias alternatives) :
    declaration.HasCode
      (aliasCode declaration.name.toList (" | ".toList.intercalate alternatives)) := by
  have code := declaration.hasCode_lines
  rwa [body, Body.lines, List.intercalate_singleton] at code

end Declaration

/-! Words, numerals, literals and written types are read as they are, wherever one cuts. -/

/-- The characters at which the parts of a declaration are cut. -/
def separators : List Char :=
  [';', ':', '|']

/-- The characters that can change the place of a reader or the depth. -/
def turns : List Char :=
  ['"', '\x27', '\x60', '/'] ++ openings ++ closings

theorem isFlat_of_not_mem {char : Char} (straight : char ∉ turns) : isFlat char = true := by
  simp only [turns, List.mem_append, not_or] at straight
  obtain ⟨⟨plain, opens⟩, closes⟩ := straight
  simp only [List.mem_cons, List.not_mem_nil, or_false, not_or] at plain
  simp [isFlat, isPlain, isQuote, plain, opens, closes]

section

variable {separator : Char} {level : Nat} {text : List Char}

/-- A class of characters is cut nowhere when it has none of the few that matter. -/
theorem counts_of_kind (kind : Char → Bool) (excludes : (separator :: turns).any kind = false)
    (within : ∀ char ∈ text, kind char = true) : Counts separator level text text := by
  have apart : ∀ char ∈ text, char ∉ separator :: turns := by
    intro char inside member
    exact List.any_eq_false.mp excludes char member (within char inside)
  refine counts_of_flat (fun char inside => ?_) fun inside => ?_
  · exact isFlat_of_not_mem fun member => apart char inside (List.mem_cons_of_mem _ member)
  · exact absurd List.mem_cons_self (apart separator inside)

theorem counts_of_class (among : separator ∈ separators) (kind : Char → Bool)
    (excludes : (separators ++ turns).any kind = false)
    (within : ∀ char ∈ text, kind char = true) : Counts separator level text text := by
  refine counts_of_kind kind (List.any_eq_false.mpr fun char member => ?_) within
  refine List.any_eq_false.mp excludes char (List.mem_append.mpr ?_)
  refine (List.mem_cons.mp member).imp_left fun same => ?_
  rwa [same]

theorem counts_of_isWordText (among : separator ∈ separators) (word : IsWordText text) :
    Counts separator level text text :=
  counts_of_class among (fun char => decide (IsWordChar char)) (by decide)
    fun char member => decide_eq_true (word char member)

theorem counts_of_flat_but {other : Char} (among : separator ∈ separators)
    (flat : IsFlatCode text) (only : text.filter (· ∈ separators) = [other])
    (apart : separator ≠ other) : Counts separator level text text := by
  refine counts_of_flat flat fun member => absurd ?_ apart
  have same : separator ∈ [other] := only ▸ List.mem_filter.mpr ⟨member, decide_eq_true among⟩
  exact List.mem_singleton.mp same

theorem counts_padding (among : separator ∈ separators) (padding : IsPadding text) :
    Counts separator level text text :=
  counts_of_class among isPadding (by decide) padding

/-- No literal is cut at a character that is neither a quote nor one of a numeral or a word. -/
theorem counts_text (quote : separator ≠ '"') (numeral : isNumeralChar separator = false)
    (word : ¬IsWordChar separator) (value : Literal) :
    Counts separator level value.text.toList value.text.toList := by
  have wordless : (separator :: turns).any (fun char => decide (IsWordChar char)) = false := by
    rw [List.any_cons, decide_eq_false word, Bool.false_or]
    decide
  have named : ∀ {text : List Char}, IsWordText text → Counts separator level text text :=
    fun word => counts_of_kind _ wordless fun char member => decide_eq_true (word char member)
  cases value with
  | string value =>
      rw [Literal.text, Json.quote, String.toList_ofList]
      exact counts_encode quote value.toList
  | number value =>
      rw [Literal.text, String.toList_ofList]
      refine counts_of_kind isNumeralChar ?_ (isNumeralText_number value)
      rw [List.any_cons, numeral, Bool.false_or]
      decide
  | boolean value => cases value <;> exact named (by decide)
  | null => exact named (by decide)

theorem counts_literal (among : separator ∈ separators) (value : Literal) :
    Counts separator level value.text.toList value.text.toList := by
  have quotes : '"' ∉ separators := by decide
  have numerals : separators.any isNumeralChar = false := by decide
  have words : separators.any (fun char => decide (IsWordChar char)) = false := by decide
  refine counts_text (fun same => quotes (same ▸ among)) ?_ ?_ value
  · exact Bool.eq_false_iff.mpr (List.any_eq_false.mp numerals separator among)
  · exact fun word => List.any_eq_false.mp words separator among (decide_eq_true word)

theorem counts_enclosed (among : separator ∈ separators) {opening closing : Char}
    (pair : (opening, closing) ∈ openings.zip closings) {code : List Char}
    (inside : Counts separator 1 text code) :
    Counts separator 0 (opening :: text ++ [closing]) (opening :: code ++ [closing]) := by
  have apart : ∀ pair ∈ openings.zip closings,
      (isPlain pair.1 = true ∧ isPlain pair.2 = true) ∧ pair.1 ∈ openings ∧
        (pair.2 ∉ openings ∧ pair.2 ∈ closings) ∧ pair.1 ∉ separators := by
    decide
  obtain ⟨plain, opens, closes, other⟩ := apart _ pair
  exact Counts.enclosed plain opens closes (fun same => other (same ▸ among)) inside

theorem counts_arrayText (among : separator ∈ separators)
    (deep : Counts separator 1 text text)
    (shallow : (separator = '|' → '|' ∉ text) → Counts separator 0 text text) :
    Counts separator 0 (arrayText text) (arrayText text) := by
  have brackets : Counts separator 0 "[]".toList "[]".toList :=
    counts_enclosed among (by decide) counts_nil
  unfold arrayText
  split
  · have group : Counts separator 0 ('(' :: text ++ [')']) ('(' :: text ++ [')']) :=
      counts_enclosed among (by decide) deep
    have parts : '(' :: text ++ ")[]".toList = ('(' :: text ++ [')']) ++ "[]".toList := by simp
    rw [parts]
    exact group.append brackets
  · next barless => exact (shallow fun _ => barless).append brackets

theorem counts_recordText (among : separator ∈ separators)
    (values : Counts separator 1 text text) :
    Counts separator 0 (recordText text) (recordText text) := by
  have name : Counts separator 0 "Record".toList "Record".toList :=
    counts_of_isWordText among (by decide)
  have key : Counts separator 1 "string, ".toList "string, ".toList := by
    refine counts_of_flat (by decide) fun _ => Nat.zero_lt_one
  have parts : recordText text =
      "Record".toList ++ ('<' :: ("string, ".toList ++ text) ++ ['>']) :=
    List.append_assoc _ _ _
  rw [parts]
  exact name.append (counts_enclosed among (by decide) (key.append values))

/-- Only a text of alternatives is cut, at its own bars. -/
theorem counts_typeText (among : separator ∈ separators) {type : TypeRef}
    (named : ∀ name ∈ type.names, IsWordText name.toList) :
    Counts separator 1 (typeText type) (typeText type) ∧
      ((separator = '|' → ∀ inner, type ≠ .nullable inner) →
        Counts separator 0 (typeText type) (typeText type)) := by
  have everywhere : ∀ {text : List Char}, Counts separator 0 text text →
      Counts separator 1 text text := fun counts => counts.mono (Nat.zero_le 1)
  induction type with
  | primitive kind =>
      have word : IsWordText (primitiveText kind) := by cases kind <;> decide
      have counts : Counts separator 0 (primitiveText kind) (primitiveText kind) :=
        counts_of_isWordText among word
      exact ⟨everywhere counts, fun _ => counts⟩
  | named name =>
      have counts : Counts separator 0 name.toList name.toList :=
        counts_of_isWordText among (named name List.mem_cons_self)
      exact ⟨everywhere counts, fun _ => counts⟩
  | array element induction =>
      obtain ⟨deep, shallow⟩ := induction named
      have counts := counts_arrayText among deep fun barless => by
        -- Without parentheses the element has no bar, so it has no alternatives.
        refine shallow fun bar inner => ?_
        rintro rfl
        exact barless bar (List.mem_append_right _ (by decide))
      exact ⟨everywhere counts, fun _ => counts⟩
  | map values induction =>
      have counts := counts_recordText among (induction named).1
      exact ⟨everywhere counts, fun _ => counts⟩
  | untypedMap =>
      have unknown : Counts separator 1 "unknown".toList "unknown".toList :=
        counts_of_isWordText among (by decide)
      have counts := counts_recordText among unknown
      exact ⟨everywhere counts, fun _ => counts⟩
  | nullable inner induction =>
      obtain ⟨deep, shallow⟩ := induction named
      have flat : IsFlatCode " | null".toList := by decide
      refine ⟨deep.append (counts_of_flat flat fun _ => Nat.zero_lt_one), fun single => ?_⟩
      have other : separator ≠ '|' := fun bar => single bar inner rfl
      exact (shallow fun bar => absurd bar other).append
        (counts_of_flat_but among flat (by decide) other)

end

end Schemata.TypeScript
