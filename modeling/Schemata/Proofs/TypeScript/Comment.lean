import Mathlib.Data.List.Forall2
import Schemata.TypeScript.Module
import Schemata.Proofs.Emission.Layout
import Schemata.Proofs.Naming.Suffix
import Schemata.Proofs.TypeScript.Alias
import Schemata.Proofs.TypeScript.Scan

namespace Schemata.TypeScript

/-! Texts in comments. Whatever stands in one is escaped line by line. -/

theorem head?_escapeComment (text : List Char) : (escapeComment text).head? = text.head? := by
  fun_cases escapeComment text <;> rfl

theorem not_closes_escapeComment (text : List Char) : ¬Closes (escapeComment text) := by
  fun_induction escapeComment text with
  | case1 rest induction =>
      rw [closes_cons_iff, closes_cons_iff, closes_cons_iff]
      simp [induction]
  | case2 char rest other induction =>
      rw [closes_cons_iff, head?_escapeComment, not_or]
      refine ⟨?_, induction⟩
      rintro ⟨star, slash⟩
      obtain ⟨more, rfl⟩ := List.head?_eq_some_iff.mp slash
      exact other more star rfl
  | case3 => exact not_closes_nil

theorem not_closes_commentLine {line : List Char} (stays : ¬Closes line) :
    ¬Closes (commentLine " *".toList line) := by
  unfold commentLine
  split
  · decide
  · refine not_closes_append (by decide) ?_ (by simp)
    rw [closes_cons_iff, not_or]
    exact ⟨by simp, stays⟩

theorem head?_commentLine (line : List Char) :
    (commentLine " *".toList line).head? ≠ some '/' := by
  unfold commentLine
  split
  · decide
  · simp

/-! The text of a declaration, in code and comments. -/

inductive Part where
  | code (line : List Char)
  | comment (indent first : List Char) (rest : List (List Char))

/-- What a comment has between its opening and its end. -/
def inside (indent : List Char) (docs : List (List Char)) : List Char :=
  '\n' :: unlines (docs.map fun line => indent ++ commentLine " *".toList line) ++
    (indent ++ [' '])

namespace Part

def text : Part → List Char
  | code line => line
  | comment indent first rest =>
      indent ++ "/**".toList ++ inside indent (first :: rest) ++ "*/".toList

def lines : Part → List (List Char)
  | code line => [line]
  | comment indent first rest => TypeScript.comment indent (first :: rest)

def insides : Part → List (List Char)
  | code _ => []
  | comment indent first rest => [inside indent (first :: rest)]

theorem lines_ne_nil (part : Part) : part.lines ≠ [] := by
  cases part <;> exact List.cons_ne_nil _ _

theorem unlines_lines (part : Part) : unlines part.lines = part.text ++ ['\n'] := by
  cases part with
  | code line => simp [unlines, lines, text]
  | comment indent first rest =>
      simp [unlines, lines, text, TypeScript.comment, inside]

theorem unlines_flatMap_lines (parts : List Part) :
    unlines (parts.flatMap lines) = unlines (parts.map text) := by
  simp only [unlines, List.flatMap_assoc, List.flatMap_map]
  exact List.flatMap_congr fun part _ => part.unlines_lines

end Part

def documented (indent : List Char) : List (List Char) → List Part
  | [] => []
  | first :: rest => [.comment indent first rest]

def Property.line (property : Property) : List Char :=
  "  ".toList ++ property.key ++ (if property.optional then ['?'] else []) ++
    ": ".toList ++ property.type ++ [';']

def Property.parts (property : Property) : List Part :=
  documented "  ".toList property.docs ++ [.code property.line]

def enclosedParts (opening closing : List Char) : List Part → List Part
  | [] => [.code (opening ++ closing)]
  | parts => [.code opening] ++ parts ++ [.code closing]

def Body.parts (name : List Char) : Body → List Part
  | object false properties =>
      enclosedParts ("export interface ".toList ++ name ++ " \x7b".toList)
        "\x7d".toList (properties.flatMap (·.parts))
  | object true properties =>
      enclosedParts ("export type ".toList ++ name ++ " = \x7b".toList)
        "\x7d | null;".toList (properties.flatMap (·.parts))
  | body => (body.lines name).map .code

def Declaration.parts (declaration : Declaration) : List Part :=
  documented [] declaration.docs ++ declaration.body.parts declaration.name.toList

theorem lines_documented (indent : List Char) (docs : List (List Char)) :
    (documented indent docs).flatMap Part.lines = comment indent docs := by
  cases docs with
  | nil => rfl
  | cons => exact List.flatMap_singleton _ _

theorem lines_property (property : Property) :
    property.parts.flatMap Part.lines = property.lines := by
  rw [Property.parts, List.flatMap_append, lines_documented]
  rfl

theorem enclosed_of_ne_nil {opening closing : List Char} {lines : List (List Char)}
    (present : lines ≠ []) :
    enclosed opening closing lines = [opening] ++ lines ++ [closing] := by
  cases lines with
  | nil => exact absurd rfl present
  | cons => rfl

theorem lines_enclosedParts (opening closing : List Char) (parts : List Part) :
    (enclosedParts opening closing parts).flatMap Part.lines =
      enclosed opening closing (parts.flatMap Part.lines) := by
  cases parts with
  | nil => rfl
  | cons part rest =>
      have present : (part :: rest).flatMap Part.lines ≠ [] :=
        List.append_ne_nil_of_left_ne_nil part.lines_ne_nil _
      rw [enclosed_of_ne_nil present, enclosedParts, List.flatMap_append, List.flatMap_append]
      · rfl
      · nofun

theorem lines_code (lines : List (List Char)) :
    (lines.map Part.code).flatMap Part.lines = lines := by
  simp [List.flatMap_map, Part.lines]

theorem lines_body (name : List Char) (body : Body) :
    (body.parts name).flatMap Part.lines = body.lines name := by
  cases body with
  | object nullable properties =>
      have held : (properties.flatMap (·.parts)).flatMap Part.lines =
          properties.flatMap (·.lines) := by
        rw [List.flatMap_assoc]
        exact List.flatMap_congr fun property _ => lines_property property
      cases nullable <;> rw [Body.parts, lines_enclosedParts, held, Body.lines]
  | enum | typeAlias => exact lines_code _

theorem lines_parts (declaration : Declaration) :
    declaration.parts.flatMap Part.lines =
      comment [] declaration.docs ++ declaration.body.lines declaration.name.toList := by
  rw [Declaration.parts, List.flatMap_append, lines_documented, lines_body]

theorem exists_enclosed_eq (opening front : List Char) (char : Char)
    (lines : List (List Char)) :
    ∃ above line, enclosed opening (front ++ [char]) lines = above ++ [line ++ [char]] := by
  cases lines with
  | nil => exact ⟨[], opening ++ front, by rw [enclosed, List.append_assoc]; rfl⟩
  | cons => exact ⟨_, front, by rw [enclosed_of_ne_nil (List.cons_ne_nil _ _)]⟩

/-- The last line ends in a brace or a semicolon. -/
theorem Body.exists_lines_eq (name : List Char) (body : Body) :
    ∃ above line char, body.lines name = above ++ [line ++ [char]] ∧
      Text.isBlank char = false := by
  cases body with
  | object nullable properties =>
      cases nullable with
      | false =>
          obtain ⟨above, line, lines⟩ := exists_enclosed_eq
            ("export interface ".toList ++ name ++ " \x7b".toList) [] '\x7d'
            (properties.flatMap (·.lines))
          exact ⟨above, line, _, lines, by decide⟩
      | true =>
          obtain ⟨above, line, lines⟩ := exists_enclosed_eq
            ("export type ".toList ++ name ++ " = \x7b".toList) "\x7d | null".toList ';'
            (properties.flatMap (·.lines))
          exact ⟨above, line, _, lines, by decide⟩
  | enum members => exact ⟨_, [], '\x7d', rfl, by decide⟩
  | typeAlias alternatives => exact ⟨[], _, ';', rfl, by decide⟩

theorem text_eq_parts (declaration : Declaration) :
    declaration.text = ['\n'].intercalate (declaration.parts.map (·.text)) := by
  obtain ⟨above, line, char, lines, visible⟩ :=
    declaration.body.exists_lines_eq declaration.name.toList
  have joined : declaration.text =
      ['\n'].intercalate (declaration.parts.flatMap Part.lines) := by
    rw [Declaration.text, lines_parts, lines, ← List.append_assoc, joinLines_concat visible]
  have some_line : declaration.parts.flatMap Part.lines ≠ [] := by
    simp only [lines_parts, lines, ne_eq, List.append_eq_nil_iff, List.cons_ne_nil, and_false,
      not_false_eq_true]
  have some_part : declaration.parts.map (·.text) ≠ [] := by
    intro none
    rw [List.map_eq_nil_iff.mp none] at some_line
    exact some_line rfl
  have same := Part.unlines_flatMap_lines declaration.parts
  rw [unlines_eq_intercalate some_line, unlines_eq_intercalate some_part] at same
  rw [joined]
  exact List.append_cancel_right same

/-! Every comment is closed by its own end only. -/

/-- A comment stands behind blanks and holds no end of a comment. -/
def Part.Encloses : Part → Prop
  | code _ => True
  | comment indent first rest =>
      Passes indent ∧ ¬Closes (TypeScript.inside indent (first :: rest))

theorem not_closes_inside {indent : List Char} {docs : List (List Char)}
    (blank : ¬Closes indent) (stays : ∀ line ∈ docs, ¬Closes line) :
    ¬Closes (inside indent docs) := by
  have ending : ¬Closes (indent ++ [' ']) :=
    not_closes_append blank (by decide) (by simp)
  have lines : ∀ line ∈ docs.map (fun line => indent ++ commentLine " *".toList line),
      ¬Closes line := by
    refine List.forall_mem_map.mpr fun line member => ?_
    exact not_closes_append blank (not_closes_commentLine (stays line member))
      (head?_commentLine line)
  rw [inside, List.cons_append, closes_cons_iff, not_or]
  exact ⟨by simp, not_closes_unlines_append lines ending⟩

/-- The second star of the opening is the first character of the comment. -/
theorem not_closes_opened {indent : List Char} {docs : List (List Char)}
    (stays : ¬Closes (inside indent docs)) : ¬Closes ('*' :: inside indent docs) := by
  rw [closes_cons_iff, not_or]
  exact ⟨by simp [inside], stays⟩

theorem encloses_documented {indent : List Char} {docs : List (List Char)}
    (passes : Passes indent) (blank : ¬Closes indent)
    (stays : ∀ line ∈ docs, ¬Closes line) :
    ∀ part ∈ documented indent docs, part.Encloses := by
  cases docs with
  | nil => nofun
  | cons => exact List.forall_mem_singleton.mpr ⟨passes, not_closes_inside blank stays⟩

theorem forall_mem_enclosedParts {holds : Part → Prop} {opening closing : List Char}
    {parts : List Part} (both : holds (.code (opening ++ closing)))
    (above : holds (.code opening)) (below : holds (.code closing))
    (each : ∀ part ∈ parts, holds part) :
    ∀ part ∈ enclosedParts opening closing parts, holds part := by
  cases parts with
  | nil => exact List.forall_mem_singleton.mpr both
  | cons first rest =>
      rw [enclosedParts]
      · simp only [List.forall_mem_append, List.forall_mem_singleton]
        exact ⟨⟨above, each⟩, below⟩
      · nofun

theorem not_closes_docLines (docs : Docs) : ∀ line ∈ docLines docs, ¬Closes line :=
  List.forall_mem_map.mpr fun line _ => not_closes_escapeComment line

theorem encloses_property (options : EmitOptions) (field : Field) :
    ∀ part ∈ (property options field).parts, part.Encloses := by
  refine List.forall_mem_append.mpr ⟨?_, List.forall_mem_singleton.mpr trivial⟩
  exact encloses_documented (passes_of_plain (by decide)) (by decide)
    (not_closes_docLines field.docs)

theorem encloses_body (options : EmitOptions) (nullable : Bool) (definition : Definition)
    (name : List Char) :
    ∀ part ∈ (bodyOf options nullable definition).parts name, part.Encloses := by
  have code : ∀ lines : List (List Char), ∀ part ∈ lines.map Part.code, part.Encloses :=
    fun _ => List.forall_mem_map.mpr fun _ _ => trivial
  cases definition with
  | object fields =>
      have each : ∀ part ∈ (fields.map (property options)).flatMap (·.parts),
          part.Encloses := by
        simp only [List.forall_mem_flatMap, List.forall_mem_map]
        exact fun field _ => encloses_property options field
      cases nullable <;> exact forall_mem_enclosedParts trivial trivial trivial each
  | enum values =>
      simp only [bodyOf]
      split <;> exact code _
  | primitive | array | map | untypedMap | union | reference => exact code _

theorem encloses_parts (options : EmitOptions) (declaration : Schemata.Declaration) :
    ∀ part ∈ (Declaration.ofModel options declaration).parts, part.Encloses := by
  refine List.forall_mem_append.mpr ⟨?_, encloses_body options _ _ _⟩
  refine encloses_documented passes_nil not_closes_nil (List.forall_mem_append.mpr ⟨?_, ?_⟩)
  · exact not_closes_docLines declaration.docs
  · split
    · exact List.forall_mem_map.mpr fun field _ => not_closes_escapeComment _
    · nofun

/-! Comments are read as they are written. -/

/-- Wherever the text stands in code, these are the comments that are found in it. -/
def Reads (text : List Char) (comments : List (List Char)) : Prop :=
  ∀ rest, scan .code (text ++ rest) = (comments ++ ·) <$> scan .code rest

theorem reads_of_passes {text : List Char} (passes : Passes text) : Reads text [] := by
  intro rest
  rw [passes]
  exact (id_map _).symm

theorem Reads.append {left right : List Char} {first second : List (List Char)}
    (before : Reads left first) (after : Reads right second) :
    Reads (left ++ right) (first ++ second) := by
  intro rest
  rw [List.append_assoc, before, after, ← comp_map]
  simp only [Function.comp_def, List.append_assoc]

/-- The comments as a reader finds them, with the second star of the opening. -/
def Part.comments (part : Part) : List (List Char) :=
  part.insides.map ('*' :: ·)

/-- Code is passed over. -/
def Part.IsPassed : Part → Prop
  | code line => Passes line
  | comment _ _ _ => True

theorem reads_part {part : Part} (encloses : part.Encloses) (passed : part.IsPassed) :
    Reads part.text part.comments := by
  cases part with
  | code line => exact reads_of_passes passed
  | comment indent first rest =>
      obtain ⟨before, stays⟩ := encloses
      have body := not_closes_opened stays
      intro after
      have opened : (Part.comment indent first rest).text ++ after =
          indent ++ '/' :: '*' ::
            (('*' :: inside indent (first :: rest)) ++ '*' :: '/' :: after) := by
        simp [Part.text]
      rw [opened, before]
      exact scan_block body _ after

theorem reads_parts {parts : List Part} (encloses : ∀ part ∈ parts, part.Encloses)
    (passed : ∀ part ∈ parts, part.IsPassed) :
    Reads (['\n'].intercalate (parts.map (·.text))) (parts.flatMap (·.comments)) := by
  induction parts with
  | nil => exact reads_of_passes passes_nil
  | cons part rest induction =>
      obtain ⟨here, later⟩ := List.forall_mem_cons.mp encloses
      obtain ⟨now, afterwards⟩ := List.forall_mem_cons.mp passed
      have first := reads_part here now
      have others := induction later afterwards
      cases rest with
      | nil => simpa using first
      | cons next more =>
          have feed : Passes ['\n'] := passes_of_plain (by decide)
          have whole := (first.append (reads_of_passes feed)).append others
          rw [List.append_nil] at whole
          rwa [List.map_cons, List.map_cons, List.intercalate_cons_cons, List.flatMap_cons]

/-! Code is written without comments. -/

theorem isPlainCode_recordText {values : List Char} (plain : IsPlainCode values) :
    IsPlainCode (recordText values) := by
  have opening : IsPlainCode "Record<string, ".toList := by decide
  exact isPlainCode_append.mpr ⟨isPlainCode_append.mpr ⟨opening, plain⟩, by decide⟩

theorem isPlainCode_typeText {type : TypeRef}
    (plain : ∀ name ∈ type.names, IsPlainCode name.toList) : IsPlainCode (typeText type) := by
  induction type with
  | primitive kind => cases kind <;> decide
  | named name => exact plain name List.mem_cons_self
  | array element induction =>
      rw [typeText, arrayText]
      split
      · rw [isPlainCode_append]
        exact ⟨List.forall_mem_cons.mpr ⟨by decide, induction plain⟩, by decide⟩
      · exact isPlainCode_append.mpr ⟨induction plain, by decide⟩
  | map values induction => exact isPlainCode_recordText (induction plain)
  | untypedMap => exact isPlainCode_recordText (by decide)
  | nullable inner induction =>
      rw [typeText, orNull, isPlainCode_append]
      exact ⟨induction plain, by decide⟩

theorem isPlainCode_signature (options : EmitOptions) {field : Field}
    (plain : ∀ name ∈ field.type.names, IsPlainCode name.toList) :
    IsPlainCode (signature options field).2 := by
  have type := isPlainCode_typeText plain
  have nulled : IsPlainCode (orNull (typeText field.type)) :=
    isPlainCode_append.mpr ⟨type, by decide⟩
  unfold signature
  cases field.nullable with
  | false => exact type
  | true =>
      cases options.nullStyle with
      | optionalField => exact type
      | unionWithNull => exact nulled

theorem continuesIdentifier_of_isIdentifier {name : List Char}
    (identifier : isIdentifier name = true) :
    ∀ char ∈ name, continuesIdentifier char = true := by
  cases name with
  | nil => cases identifier
  | cons first rest =>
      simp only [isIdentifier, Bool.and_eq_true, List.all_eq_true] at identifier
      have initial : continuesIdentifier first = true := by
        have starts := identifier.1
        simp only [startsIdentifier, Bool.or_eq_true] at starts
        simp only [continuesIdentifier, Char.isAlphanum, Bool.or_eq_true]
        exact starts.imp_left (Or.imp_left Or.inl)
      exact List.forall_mem_cons.mpr ⟨initial, identifier.2⟩

theorem passes_propertyKey (name : List Char) : Passes (propertyKey name) := by
  unfold propertyKey
  split
  · next identifier =>
    exact passes_of_plain (isPlainCode_of_class continuesIdentifier (by decide)
      (continuesIdentifier_of_isIdentifier identifier))
  · exact passes_encode name

theorem isPlainCode_spelledNumber (value : Number) : IsPlainCode (spelledNumber value) := by
  intro char member
  obtain ⟨held, among, inside⟩ := List.mem_flatMap.mp member
  have plain := isPlainCode_of_isNumeralText (isNumeralText_number value) held among
  split at inside
  · exact (by decide : IsPlainCode "Minus".toList) char inside
  · exact (by decide : IsPlainCode ['_']) char inside
  · rwa [List.mem_singleton.mp inside]

theorem isPlainCode_valueName (value : Literal) : IsPlainCode value.valueName.toList := by
  cases value with
  | string value => exact isPlainCode_of_isWordText (isTypeName_typeName value).letters
  | number value =>
      have spelled : IsPlainCode (String.ofList (spelledNumber value)).toList := by
        rw [String.toList_ofList]
        exact isPlainCode_spelledNumber value
      rw [Literal.valueName, String.toList_append]
      exact isPlainCode_append.mpr ⟨by decide, spelled⟩
  | boolean value => cases value <;> decide
  | null => decide

theorem isPlainCode_freeSuffixed (used : List String) {base : String}
    (plain : IsPlainCode base.toList) : IsPlainCode (freeSuffixed used base).toList := by
  obtain ⟨number, -, name, -⟩ := (isFirstFree_freeSuffixed used base).least
  rw [name, suffixed, String.toList_append, String.toList_ofList, isPlainCode_append]
  exact ⟨plain, isPlainCode_of_isNumeralText (isNumeralText_naturalText number)⟩

theorem isPlainCode_members (used : List String) (values : List Literal) :
    ∀ member ∈ enumMembers.go used values, IsPlainCode member.name.toList := by
  induction values generalizing used with
  | nil => exact List.forall_mem_nil _
  | cons value rest induction =>
      refine List.forall_mem_cons.mpr ⟨?_, induction _⟩
      dsimp only
      split
      · exact isPlainCode_freeSuffixed used (isPlainCode_valueName value)
      · exact isPlainCode_valueName value

theorem passes_literal (value : Literal) : Passes value.text.toList := by
  cases value with
  | string value =>
      rw [Literal.text, Json.quote, String.toList_ofList]
      exact passes_encode value.toList
  | number value =>
      rw [Literal.text, String.toList_ofList]
      exact passes_of_plain (isPlainCode_of_isNumeralText (isNumeralText_number value))
  | boolean value => cases value <;> exact passes_of_plain (by decide)
  | null => exact passes_of_plain (by decide)

theorem passed_code {lines : List (List Char)} (passes : ∀ line ∈ lines, Passes line) :
    ∀ part ∈ lines.map Part.code, part.IsPassed :=
  List.forall_mem_map.mpr passes

theorem passed_documented (indent : List Char) (docs : List (List Char)) :
    ∀ part ∈ documented indent docs, part.IsPassed := by
  cases docs with
  | nil => nofun
  | cons => exact List.forall_mem_singleton.mpr trivial

theorem passed_property (options : EmitOptions) {field : Field}
    (plain : ∀ name ∈ field.type.names, IsPlainCode name.toList) :
    ∀ part ∈ (property options field).parts, part.IsPassed := by
  refine List.forall_mem_append.mpr ⟨passed_documented _ _, List.forall_mem_singleton.mpr ?_⟩
  have blank : Passes "  ".toList := passes_of_plain (by decide)
  have colon : Passes ": ".toList := passes_of_plain (by decide)
  have semicolon : Passes [';'] := passes_of_plain (by decide)
  have mark : Passes (if (property options field).optional then ['?'] else []) := by
    split
    · exact passes_of_plain (by decide)
    · exact passes_nil
  have type : Passes (signature options field).2 :=
    passes_of_plain (isPlainCode_signature options plain)
  exact ((((blank.append (passes_propertyKey field.name.toList)).append mark).append
    colon).append type).append semicolon

theorem passes_member {member : EnumMember} (plain : IsPlainCode member.name.toList) :
    Passes member.line := by
  have blank : Passes "  ".toList := passes_of_plain (by decide)
  have equals : Passes " = ".toList := passes_of_plain (by decide)
  have comma : Passes [','] := passes_of_plain (by decide)
  exact (((blank.append (passes_of_plain plain)).append equals).append
    (passes_literal member.value)).append comma

/-- A synonym with its alternatives. -/
theorem passed_typeAlias {name : List Char} (plain : IsPlainCode name)
    {alternatives : List (List Char)} (each : ∀ text ∈ alternatives, Passes text) :
    ∀ part ∈ (Body.typeAlias alternatives).parts name, part.IsPassed := by
  refine passed_code (List.forall_mem_singleton.mpr ?_)
  have opening : Passes "export type ".toList := passes_of_plain (by decide)
  have equals : Passes " = ".toList := passes_of_plain (by decide)
  have bar : Passes " | ".toList := passes_of_plain (by decide)
  have semicolon : Passes [';'] := passes_of_plain (by decide)
  exact (((opening.append (passes_of_plain plain)).append equals).append
    (passes_intercalate bar each)).append semicolon

theorem passes_withNull {nullable : Bool} {alternatives : List (List Char)}
    (each : ∀ text ∈ alternatives, Passes text) :
    ∀ text ∈ withNull nullable alternatives, Passes text := by
  cases nullable with
  | false => exact each
  | true =>
      have null : Passes "null".toList := passes_of_plain (by decide)
      exact List.forall_mem_append.mpr ⟨each, List.forall_mem_singleton.mpr null⟩

theorem passes_around {name : List Char} (plain : IsPlainCode name) {front back : List Char}
    (around : IsPlainCode (front ++ back)) : Passes (front ++ name ++ back) := by
  obtain ⟨before, after⟩ := isPlainCode_append.mp around
  exact ((passes_of_plain before).append (passes_of_plain plain)).append
    (passes_of_plain after)

theorem passed_body (options : EmitOptions) (nullable : Bool) {definition : Definition}
    {name : List Char} (plainName : IsPlainCode name)
    (plain : ∀ name ∈ definition.names, IsPlainCode name.toList) :
    ∀ part ∈ (bodyOf options nullable definition).parts name, part.IsPassed := by
  have types : ∀ type ∈ definition.types, ∀ name ∈ type.names, IsPlainCode name.toList :=
    fun type member name mentioned =>
      plain name (List.mem_flatMap.mpr ⟨type, member, mentioned⟩)
  have written : ∀ text ∈ (writtenTypes definition).map typeText, Passes text := by
    refine List.forall_mem_map.mpr fun type member => ?_
    exact passes_of_plain (isPlainCode_typeText fun name mentioned =>
      plain name (names_writtenTypes definition
        (List.mem_flatMap.mpr ⟨type, member, mentioned⟩)))
  cases definition with
  | object fields =>
      have each : ∀ part ∈ (fields.map (property options)).flatMap (·.parts),
          part.IsPassed := by
        simp only [List.forall_mem_flatMap, List.forall_mem_map]
        exact fun field member => passed_property options
          (types field.type (List.mem_map_of_mem member))
      cases nullable with
      | false =>
          have opening : Passes ("export interface ".toList ++ name ++ " \x7b".toList) :=
            passes_around plainName (by decide)
          have closing : Passes "\x7d".toList := passes_of_plain (by decide)
          exact forall_mem_enclosedParts (opening.append closing) opening closing each
      | true =>
          have opening : Passes ("export type ".toList ++ name ++ " = \x7b".toList) :=
            passes_around plainName (by decide)
          have closing : Passes "\x7d | null;".toList := passes_of_plain (by decide)
          exact forall_mem_enclosedParts (opening.append closing) opening closing each
  | enum values =>
      simp only [bodyOf]
      split
      · have opening : Passes ("export enum ".toList ++ name ++ " \x7b".toList) :=
          passes_around plainName (by decide)
        have closing : Passes "\x7d".toList := passes_of_plain (by decide)
        have members : ∀ line ∈ (enumMembers values).map (·.line), Passes line :=
          List.forall_mem_map.mpr fun member among =>
            passes_member (isPlainCode_members [] values member among)
        refine passed_code (List.forall_mem_append.mpr
          ⟨List.forall_mem_append.mpr ⟨?_, members⟩, ?_⟩)
        · exact List.forall_mem_singleton.mpr opening
        · exact List.forall_mem_singleton.mpr closing
      · exact passed_typeAlias plainName (passes_withNull
          (List.forall_mem_map.mpr fun value _ => passes_literal value))
  | primitive | array | map | untypedMap | union | reference =>
      exact passed_typeAlias plainName (passes_withNull written)

theorem reads_text (options : EmitOptions) {declaration : Schemata.Declaration}
    (plain : ∀ name ∈ declaration.name :: declaration.definition.names,
      IsPlainCode name.toList) :
    Reads (Declaration.ofModel options declaration).text
      ((Declaration.ofModel options declaration).parts.flatMap (·.comments)) := by
  obtain ⟨named, mentioned⟩ := List.forall_mem_cons.mp plain
  rw [text_eq_parts]
  exact reads_parts (encloses_parts options declaration) (List.forall_mem_append.mpr
    ⟨passed_documented _ _, passed_body options _ named mentioned⟩)

/-- The text of a declaration is code with comments in it, and no comment holds an end of a
comment, whatever is documented. Where the names of types have no quotes and no slashes,
exactly these comments are found in it, and code follows each. -/
theorem comments_closed (options : EmitOptions) (model : Model) :
    List.Forall₂ (fun declaration source =>
        source.text = ['\n'].intercalate
          ((Declaration.ofModel options declaration).parts.map (·.text)) ∧
        (∀ part ∈ (Declaration.ofModel options declaration).parts,
          ∀ text ∈ part.insides, ¬Closes text) ∧
        ((∀ name ∈ declaration.name :: declaration.definition.names,
            IsPlainCode name.toList) →
          Reads source.text
            ((Declaration.ofModel options declaration).parts.flatMap (·.comments))))
      model.declarations (emit options model) := by
  refine List.forall₂_map_right_iff.mpr (List.forall₂_same.mpr fun declaration _ => ?_)
  refine ⟨text_eq_parts _, fun part member inside among => ?_, reads_text options⟩
  have encloses := encloses_parts options declaration part member
  cases part with
  | code line => cases among
  | comment indent first rest =>
      obtain rfl := List.mem_singleton.mp among
      exact encloses.2

end Schemata.TypeScript
