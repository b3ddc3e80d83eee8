import Schemata.Proofs.Naming.Suffix
import Schemata.Proofs.Naming.ValueName
import Schemata.Proofs.TypeScript.Null

namespace Schemata.TypeScript

open Text

/-! Members of enumerations: one for each value, under names of their own. -/

/-! Names. -/

/-- The name of a member where some names are in use: that of its value or, where that one is
taken, with the number at which the search from two on ends. -/
inductive NameChosen (used : List String) (value : Literal) : String → Prop
  | own (free : value.valueName ∉ used) : NameChosen used value value.valueName
  | numbered {number : Nat} (taken : value.valueName ∈ used)
      (search : Search used value.valueName 2 number) :
      NameChosen used value (suffixed value.valueName number)

/-- The names of members, chosen one after the other. -/
inductive NamesChosen : List String → List Literal → List String → Prop
  | nil {used : List String} : NamesChosen used [] []
  | cons {used : List String} {value : Literal} {values : List Literal} {name : String}
      {names : List String} (chosen : NameChosen used value name)
      (later : NamesChosen (name :: used) values names) :
      NamesChosen used (value :: values) (name :: names)

/-- The name of a value, or that name with a number. -/
def IsNameOf (value : Literal) (name : String) : Prop :=
  name = value.valueName ∨ ∃ number, 2 ≤ number ∧ name = suffixed value.valueName number

section

variable {used names : List String} {value : Literal} {values : List Literal} {name : String}

theorem NameChosen.fresh (chosen : NameChosen used value name) : name ∉ used := by
  cases chosen with
  | own free => exact free
  | numbered _ search => exact search.free

theorem NameChosen.isNameOf (chosen : NameChosen used value name) : IsNameOf value name := by
  cases chosen with
  | own => exact .inl rfl
  | numbered _ search => exact .inr ⟨_, search.le, rfl⟩

theorem nameChosen_step (used : List String) (value : Literal) :
    NameChosen used value
      (if value.valueName ∈ used then freeSuffixed used value.valueName
        else value.valueName) := by
  split
  · next taken =>
    obtain ⟨number, search, same⟩ :=
      (isFirstFree_freeSuffixed used value.valueName).exists_search
    rw [same]
    exact .numbered taken search
  · next free => exact .own free

theorem namesChosen_go (used : List String) (values : List Literal) :
    NamesChosen used values ((enumMembers.go used values).map (·.name)) := by
  induction values generalizing used with
  | nil => exact .nil
  | cons value rest induction => exact .cons (nameChosen_step used value) (induction _)

example : (enumMembers [.string "a", .string "A", .string "a2"]).map (·.name) =
    ["A", "A2", "A22"] := by
  decide +kernel

theorem values_go (used : List String) (values : List Literal) :
    (enumMembers.go used values).map (·.value) = values := by
  induction values generalizing used with
  | nil => rfl
  | cons value rest induction => exact congrArg (value :: ·) (induction _)

theorem NamesChosen.apart (chosen : NamesChosen used values names) :
    ∀ name ∈ names, name ∉ used := by
  induction chosen with
  | nil => exact nofun
  | cons chosen _ induction =>
      refine List.forall_mem_cons.mpr ⟨chosen.fresh, fun name member inUse => ?_⟩
      exact induction name member (List.mem_cons_of_mem _ inUse)

theorem NamesChosen.nodup (chosen : NamesChosen used values names) : names.Nodup := by
  induction chosen with
  | nil => exact List.nodup_nil
  | cons _ later induction =>
      exact List.nodup_cons.mpr
        ⟨fun member => later.apart _ member List.mem_cons_self, induction⟩

theorem NamesChosen.isNameOf (chosen : NamesChosen used values names) :
    List.Forall₂ IsNameOf values names := by
  induction chosen with
  | nil => exact .nil
  | cons chosen _ induction => exact .cons chosen.isNameOf induction

end

/-! The characters of names. -/

/-- A word character, or one of the others that a spelled number may have. -/
def isNameChar (char : Char) : Bool :=
  decide (IsWordChar char) || char == '_' || char == '+'

theorem isNameChar_of_isWordChar {char : Char} (word : IsWordChar char) :
    isNameChar char = true := by
  rw [isNameChar, decide_eq_true word, Bool.true_or, Bool.true_or]

structure IsMemberName (name : String) : Prop where
  nonempty : name.toList ≠ []
  letters : ∀ char ∈ name.toList, isNameChar char = true

theorem isMemberName_of_word {name : String} (nonempty : name.toList ≠ [])
    (word : IsWordText name.toList) : IsMemberName name :=
  ⟨nonempty, fun char member => isNameChar_of_isWordChar (word char member)⟩

theorem IsMemberName.append {name : String} (named : IsMemberName name) {more : List Char}
    (letters : ∀ char ∈ more, isNameChar char = true) :
    IsMemberName (name ++ String.ofList more) := by
  constructor
  · rw [String.toList_append]
    exact List.append_ne_nil_of_left_ne_nil named.nonempty _
  · rw [String.toList_append, String.toList_ofList]
    exact List.forall_mem_append.mpr ⟨named.letters, letters⟩

theorem isMemberName_valueName (value : Literal) : IsMemberName value.valueName := by
  cases value with
  | string value =>
      have named := isTypeName_typeName value
      exact isMemberName_of_word named.nonempty named.letters
  | number value =>
      have front : IsMemberName "Value" := isMemberName_of_word (by decide) (by decide)
      refine front.append fun char member => ?_
      rcases mem_spelledNumber member with letter | rfl | ⟨rfl, -⟩
      · exact isNameChar_of_isWordChar fun _ => letter
      · rfl
      · rfl
  | boolean value => cases value <;> exact isMemberName_of_word (by decide) (by decide)
  | null => exact isMemberName_of_word (by decide) (by decide)

theorem IsMemberName.suffixed {name : String} (named : IsMemberName name) (number : Nat) :
    IsMemberName (suffixed name number) :=
  named.append fun char member =>
    isNameChar_of_isWordChar (isWordText_naturalText number char member)

theorem IsNameOf.isMemberName {value : Literal} {name : String} (named : IsNameOf value name) :
    IsMemberName name := by
  obtain rfl | ⟨number, -, rfl⟩ := named
  · exact isMemberName_valueName value
  · exact (isMemberName_valueName value).suffixed number

/-! Members as they are read back: what stands in front of each comma, cut at its equals sign. -/

structure Entry where
  name : List Char
  value : List Char

def readEntry (text : List Char) : Option Entry :=
  match (cut '=' text).map unpadded with
  | [name, value] => some ⟨name, value⟩
  | _ => none

/-- Nothing stands behind the last comma. -/
def readEntries (body : List Char) : Option (List Entry) :=
  let pieces := (cut ',' body).map unpadded
  if pieces.getLast? = some [] then pieces.dropLast.mapM readEntry else none

namespace EnumMember

/-- The member without its indent and its comma. -/
def code (member : EnumMember) : List Char :=
  member.name.toList ++ " = ".toList ++ member.value.text.toList

def entry (member : EnumMember) : Entry where
  name := member.name.toList
  value := member.value.text.toList

variable {member : EnumMember}

theorem isCompact_name (named : IsMemberName member.name) : IsCompact member.name.toList :=
  isCompact_of_class named.nonempty isNameChar (by decide) named.letters

theorem isPiece (named : IsMemberName member.name) : IsPiece ',' "  ".toList member.code := by
  have name : Counts ',' 0 member.name.toList member.name.toList :=
    counts_of_kind isNameChar (by decide) named.letters
  have equals : Counts ',' 0 " = ".toList " = ".toList :=
    counts_of_flat (by decide) fun comma => absurd comma (by decide)
  have value : Counts ',' 0 member.value.text.toList member.value.text.toList :=
    counts_text (by decide) (by decide) (by decide) member.value
  refine ⟨⟨"  ".toList, by decide, counts_of_flat (by decide) (by decide)⟩,
    (name.append equals).append value, ?_⟩
  exact isCompact_append (isCompact_name named) (isCompact_literal member.value) _

theorem readEntry_code (named : IsMemberName member.name) :
    readEntry member.code = some member.entry := by
  have blank : Counts '=' 0 [' '] [' '] := counts_of_flat (by decide) (by decide)
  have name : Counts '=' 0 member.name.toList member.name.toList :=
    counts_of_kind isNameChar (by decide) named.letters
  have value : Counts '=' 0 member.value.text.toList member.value.text.toList :=
    counts_text (by decide) (by decide) (by decide) member.value
  have padding : IsPadding [' '] := by decide
  have parts : member.code =
      (member.name.toList ++ [' ']) ++ '=' :: ([' '] ++ member.value.text.toList) := by
    simp [code]
  have front := unpadded_padded (by decide : IsPadding []) (isCompact_name named) padding
  rw [List.nil_append] at front
  rw [readEntry, parts, cut_append_separator (name.append blank) (by decide),
    cut_of_counts (blank.append value), List.map_cons, List.map_singleton, front,
    unpadded_behind padding (isCompact_literal member.value)]
  rfl

end EnumMember

def enumCode (name body : List Char) : List Char :=
  "export enum ".toList ++ name ++ " \x7b".toList ++ body ++ "\x7d".toList

def entriesText (members : List EnumMember) : List Char :=
  '\n' :: unlines (members.map (·.line))

theorem cut_entriesText {members : List EnumMember}
    (named : ∀ member ∈ members, IsMemberName member.name) :
    (cut ',' (entriesText members)).map unpadded = members.map (·.code) ++ [[]] := by
  have lines : entriesText members = ['\n'] ++ members.flatMap fun member =>
      "  ".toList ++ member.code ++ [',', '\n'] := by
    rw [entriesText, unlines, List.flatMap_map]
    exact congrArg _ (List.flatMap_congr fun member _ => by
      simp [EnumMember.line, EnumMember.code])
  rw [lines]
  exact cut_lines (by decide) (by decide) (fun member among => member.isPiece (named _ among))
    (by decide) (counts_of_flat (by decide) (by decide))

theorem readEntries_entriesText {members : List EnumMember}
    (named : ∀ member ∈ members, IsMemberName member.name) :
    readEntries (entriesText members) = some (members.map (·.entry)) := by
  have each : (members.map (·.code)).mapM readEntry = some (members.map (·.entry)) := by
    induction members with
    | nil => rfl
    | cons member rest induction =>
        obtain ⟨here, later⟩ := List.forall_mem_cons.mp named
        rw [List.map_cons, List.mapM_cons, member.readEntry_code here, induction later]
        rfl
  rw [readEntries, cut_entriesText named, List.getLast?_concat, if_pos rfl, List.dropLast_concat,
    each]

theorem Declaration.hasCode_enum {declaration : Declaration} {members : List EnumMember}
    (body : declaration.body = .enum members) :
    declaration.HasCode (enumCode declaration.name.toList (entriesText members)) := by
  have written := declaration.hasCode_lines
  rw [body, Body.lines, intercalate_append_eq_unlines (List.cons_ne_nil _ _),
    List.intercalate_singleton, List.singleton_append, unlines_cons] at written
  exact written

/-! When there are members. -/

theorem literalKinds_eq_singleton_iff {values : List Literal} {kind : LiteralKind} :
    literalKinds values = [kind] ↔ values ≠ [] ∧ ∀ value ∈ values, value.kind = kind := by
  constructor
  · intro kinds
    refine ⟨?_, fun value member => ?_⟩
    · rintro rfl
      cases kinds
    · have among : value.kind ∈ literalKinds values :=
        List.mem_eraseDups.mpr (List.mem_map_of_mem member)
      rw [kinds] at among
      exact List.mem_singleton.mp among
  · rintro ⟨present, each⟩
    obtain ⟨first, rest, rfl⟩ := List.exists_cons_of_ne_nil present
    obtain ⟨here, later⟩ := List.forall_mem_cons.mp each
    rw [literalKinds, List.map_cons, here, List.eraseDups_cons]
    have same : ∀ other ∈ rest.map (·.kind), ¬(!other == kind) = true := by
      rw [List.forall_mem_map]
      intro value member
      rw [later value member, beq_self_eq_true]
      decide
    rw [List.filter_eq_nil_iff.mpr same]
    rfl

/-- All values are strings or all are numbers. -/
def AreUniform (values : List Literal) : Prop :=
  (∀ value ∈ values, value.kind = .string) ∨ ∀ value ∈ values, value.kind = .number

section

variable {options : EmitOptions} {declaration : Schemata.Declaration} {values : List Literal}

theorem hasMembers_iff (styled : options.enumStyle = .namedEnum) :
    HasMembers options values ↔ values ≠ [] ∧ AreUniform values := by
  rw [HasMembers, and_iff_right styled, literalKinds_eq_singleton_iff,
    literalKinds_eq_singleton_iff, AreUniform, and_or_left]

/-- What an enumeration is written as, an enumeration with members or a union of literals. -/
theorem body_of_enum (styled : options.enumStyle = .namedEnum)
    (shape : declaration.definition = .enum values) :
    (values ≠ [] ∧ declaration.nullable = false ∧ AreUniform values ∧
      (Declaration.ofModel options declaration).body = .enum (enumMembers values)) ∨
    ¬(values ≠ [] ∧ declaration.nullable = false ∧ AreUniform values) ∧
      ∃ alternatives, (Declaration.ofModel options declaration).body =
        .typeAlias alternatives := by
  rw [Declaration.ofModel, shape, bodyOf]
  by_cases members : HasMembers options values
  · have absent := not_mem_of_hasMembers options members
    obtain ⟨present, uniform⟩ := (hasMembers_iff styled).mp members
    have others : values.all (· ≠ .null) = true := by
      simpa [List.forall_mem_ne'] using absent
    simp only [others, Bool.and_true, members, true_and]
    cases nullable : declaration.nullable with
    | false => exact .inl ⟨present, rfl, uniform, if_pos Bool.false_ne_true⟩
    | true => exact .inr ⟨fun kept => Bool.noConfusion kept.2.1, _, if_neg fun kept => kept rfl⟩
  · refine .inr ⟨fun kept => members ((hasMembers_iff styled).mpr ⟨kept.1, kept.2.2⟩), ?_⟩
    exact ⟨_, if_neg fun kept => members kept.1⟩

theorem isWrittenAs_enum_iff (styled : options.enumStyle = .namedEnum)
    (shape : declaration.definition = .enum values) :
    (Declaration.ofModel options declaration).IsWrittenAs "enum".toList ↔
      values ≠ [] ∧ declaration.nullable = false ∧ AreUniform values := by
  obtain ⟨present, plain, uniform, body⟩ | ⟨without, alternatives, body⟩ :=
    body_of_enum styled shape
  · exact iff_of_true (Declaration.isWrittenAs_enum body) ⟨present, plain, uniform⟩
  · refine iff_of_false (fun written => ?_) without
    have other := Declaration.isWrittenAs_type (Declaration.hasCode_typeAlias body)
    exact absurd (written.unique other (by decide) (by decide)) (by decide)

end

/-- The code of the declaration has one member for each value, in their order, which is assigned
the literal of the value. No two have the same name. -/
def Declaration.NamesValues (values : List Literal) (declaration : Declaration) : Prop :=
  ∃ body entries names, declaration.HasCode (enumCode declaration.name.toList body) ∧
    readEntries body = some entries ∧
    entries.map (·.name) = names.map String.toList ∧
    entries.map (·.value) = values.map (·.text.toList) ∧
    NamesChosen [] values names ∧ List.Forall₂ IsNameOf values names ∧ names.Nodup

theorem Declaration.namesValues {declaration : Declaration} {values : List Literal}
    (body : declaration.body = .enum (enumMembers values)) : declaration.NamesValues values := by
  have chosen := namesChosen_go [] values
  have named : ∀ member ∈ enumMembers values, IsMemberName member.name := by
    intro member among
    obtain ⟨value, -, name⟩ := Outcome.exists_of_forall₂ chosen.isNameOf.flip
      (List.mem_map_of_mem among)
    exact IsNameOf.isMemberName name
  refine ⟨_, _, _, Declaration.hasCode_enum body, readEntries_entriesText named, ?_, ?_, chosen,
    chosen.isNameOf, chosen.nodup⟩
  · rw [List.map_map, List.map_map]
    rfl
  · have texts := congrArg (List.map fun value => value.text.toList) (values_go [] values)
    rw [List.map_map] at texts ⊢
    exact texts

/-- An enumeration is written with members exactly when it is not nullable and its values are all
strings or all numbers. The choice of their names ends whatever the values are. Enumerations of
compiled models have values. -/
theorem members_name_their_values (options : EmitOptions)
    (styled : options.enumStyle = .namedEnum) {declaration : Schemata.Declaration}
    {values : List Literal} (shape : declaration.definition = .enum values) :
    ((Declaration.ofModel options declaration).IsWrittenAs "enum".toList ↔
      values ≠ [] ∧ declaration.nullable = false ∧ AreUniform values) ∧
    (∀ document model, Document.Loaded document → compile document = .ok model →
      declaration ∈ model.declarations →
        ((Declaration.ofModel options declaration).IsWrittenAs "enum".toList ↔
          declaration.nullable = false ∧ AreUniform values)) ∧
    ((Declaration.ofModel options declaration).IsWrittenAs "enum".toList →
      (Declaration.ofModel options declaration).NamesValues values) ∧
    ∀ others : List Literal, NamesChosen [] others ((enumMembers others).map (·.name)) := by
  have written := isWrittenAs_enum_iff styled shape
  refine ⟨written, fun document model loaded compiles member => ?_, fun enum => ?_,
    namesChosen_go []⟩
  · obtain ⟨node, -, -, shaped⟩ := shapedBy_of_compile loaded compiles member
    rw [shape] at shaped
    rw [written, and_iff_right shaped.1]
  · obtain ⟨-, -, -, body⟩ | ⟨without, -⟩ := body_of_enum styled shape
    · exact Declaration.namesValues body
    · exact absurd (written.mp enum) without

end Schemata.TypeScript

namespace Schemata

namespace Document

def grades : Node :=
  .mapping ⟨[]⟩ [("$defs", .mapping ⟨["$defs"]⟩
    [("Grade", .mapping ⟨["$defs", "Grade"]⟩
      [("enum", .sequence ⟨["$defs", "Grade", "enum"]⟩
          [.scalar ⟨["$defs", "Grade", "enum", "0"]⟩ (.string "a"),
            .scalar ⟨["$defs", "Grade", "enum", "1"]⟩ (.string "A"),
            .scalar ⟨["$defs", "Grade", "enum", "2"]⟩ (.string "a2")])])])]

theorem loaded_grades : Loaded grades := by
  refine ⟨"\x7b\"$defs\":\x7b\"Grade\":\x7b\"enum\":[\"a\",\"A\",\"a2\"]\x7d\x7d\x7d", .inl ?_⟩
  decide +kernel

end Document

open TypeScript in
theorem members_name_their_values_grades : Document.Loaded Document.grades ∧
    ∃ model, compile Document.grades = .ok model ∧ ∃ declaration,
      model.declarations = [declaration] ∧
      (Declaration.ofModel ⟨.namedEnum, .unionWithNull⟩ declaration).IsWrittenAs
        "enum".toList ∧
      (Declaration.ofModel ⟨.namedEnum, .unionWithNull⟩ declaration).NamesValues
        [.string "a", .string "A", .string "a2"] := by
  refine ⟨Document.loaded_grades, ?_⟩
  have computed : (compile Document.grades).toOption.map (fun model =>
      model.declarations.map fun source => (source.nullable, source.definition.values)) =
        some [(false, [.string "a", .string "A", .string "a2"])] := by
    decide +kernel
  cases compiles : compile Document.grades with
  | error => rw [compiles] at computed; cases computed
  | ok model =>
      rw [compiles] at computed
      obtain ⟨declaration, whole, held⟩ := List.map_eq_singleton_iff.mp (Option.some.inj computed)
      obtain ⟨plain, values⟩ := Prod.mk.inj held
      have shape := Definition.eq_enum (List.cons_ne_nil _ _) values
      obtain ⟨-, compiled, names, -⟩ :=
        members_name_their_values ⟨.namedEnum, .unionWithNull⟩ rfl shape
      have written := (compiled _ _ Document.loaded_grades compiles
        (whole ▸ List.mem_singleton_self _)).mpr ⟨plain, .inl (by decide)⟩
      exact ⟨model, rfl, declaration, whole, written, names written⟩

end Schemata
