import Schemata.Proofs.Json.Quoted
import Schemata.Proofs.TypeScript.TopLevel
import Schemata.Proofs.WellShaped

namespace Schemata.TypeScript

open Text

/-! The properties of an object as they are read back from its body: what stands in front of
each semicolon, cut at its colon. -/

structure Member where
  key : List Char
  optional : Bool
  type : List Char

def readMember (text : List Char) : Option Member :=
  match (cut ':' text).map unpadded with
  | [front, type] =>
      some (if front.getLast? = some '?' then ⟨front.dropLast, true, type⟩
        else ⟨front, false, type⟩)
  | _ => none

/-- Nothing stands behind the last semicolon. -/
def membersOf : List (List Char) → Option (List Member)
  | [] => none
  | [rest] => if rest = [] then some [] else none
  | piece :: rest => do return (← readMember piece) :: (← membersOf rest)

def readMembers (body : List Char) : Option (List Member) :=
  membersOf ((cut ';' body).map unpadded)

/-- The name that a key stands for: an identifier for itself, a literal for its string. -/
def keyName? (key : List Char) : Option (List Char) :=
  if isIdentifier key then some key else Json.Quoted.decode key

theorem keyName?_propertyKey (name : List Char) : keyName? (propertyKey name) = some name := by
  unfold propertyKey
  split
  · next identifier => exact if_pos identifier
  · exact Json.Quoted.decode_encode name

/-! Keys. -/

section

variable {separator : Char} {level : Nat} {name : List Char}

theorem counts_propertyKey (among : separator ∈ separators) :
    Counts separator level (propertyKey name) (propertyKey name) := by
  unfold propertyKey
  split
  · next identifier =>
    exact counts_of_class among continuesIdentifier (by decide)
      (continuesIdentifier_of_isIdentifier identifier)
  · refine counts_encode ?_ name
    rintro rfl
    exact absurd among (by decide)

theorem isCompact_propertyKey : IsCompact (propertyKey name) := by
  unfold propertyKey
  split
  · next identifier =>
    refine isCompact_of_class ?_ continuesIdentifier (by decide)
      (continuesIdentifier_of_isIdentifier identifier)
    rintro rfl
    cases identifier
  · exact isCompact_append (by decide : IsCompact ['"']) (by decide : IsCompact ['"']) _

theorem getLast?_propertyKey : (propertyKey name).getLast? ≠ some '?' := by
  unfold propertyKey
  split
  · next identifier =>
    intro mark
    have continues := continuesIdentifier_of_isIdentifier identifier '?'
      (List.mem_of_getLast? mark)
    exact absurd continues (by decide)
  · rw [Json.Quoted.encode, List.getLast?_concat]
    decide

end

/-! Properties. -/

namespace Property

/-- The property without its comment and its semicolon. -/
def code (property : Property) : List Char :=
  property.key ++ (if property.optional then ['?'] else []) ++ ": ".toList ++ property.type

def member (property : Property) : Member where
  key := property.key
  optional := property.optional
  type := property.type

/-- What makes a property readable. -/
structure IsReadable (property : Property) : Prop where
  key : ∃ name, property.key = propertyKey name
  type : ∀ separator ∈ separators, Counts separator 1 property.type property.type ∧
    (separator ≠ '|' → Counts separator 0 property.type property.type)
  compact : IsCompact property.type
  docs : ∀ line ∈ property.docs, ¬Closes line

variable {property : Property}

/-- What stands in front of a property on its lines: the comment and an indent. -/
def front (property : Property) : List Char :=
  unlines (comment "  ".toList property.docs) ++ "  ".toList

theorem unlines_lines (property : Property) :
    unlines property.lines = property.front ++ property.code ++ ";\n".toList := by
  simp [lines, front, code, unlines]

theorem counts_mark {separator : Char} {level : Nat} (among : separator ∈ separators)
    (optional : Bool) :
    Counts separator level (if optional then ['?'] else []) (if optional then ['?'] else []) := by
  split
  · exact counts_of_class among (· == '?') (by decide) (List.forall_mem_singleton.mpr rfl)
  · exact counts_nil

namespace IsReadable

variable {separator : Char} {level : Nat}

theorem isCompact_code (readable : property.IsReadable) : IsCompact property.code := by
  obtain ⟨name, key⟩ := readable.key
  rw [code, key, List.append_assoc (propertyKey name)]
  exact isCompact_append isCompact_propertyKey readable.compact _

theorem counts_code (readable : property.IsReadable) (among : separator ∈ separators)
    (other : separator ≠ ':') (type : Counts separator level property.type property.type) :
    Counts separator level property.code property.code := by
  obtain ⟨name, key⟩ := readable.key
  have colon : Counts separator level ": ".toList ": ".toList :=
    counts_of_flat_but among (by decide) (by decide) other
  rw [code, key]
  exact (((counts_propertyKey among).append (counts_mark among _)).append colon).append type

/-- The front is read as blanks. -/
theorem counts_front (readable : property.IsReadable) (among : separator ∈ separators) :
    ∃ blanks, IsPadding blanks ∧ Counts separator level property.front blanks := by
  have indent : Counts separator level "  ".toList "  ".toList :=
    counts_padding among (by decide)
  rw [front]
  cases docs : property.docs with
  | nil => exact ⟨_, by decide, counts_nil.append indent⟩
  | cons first rest =>
      have stays := not_closes_inside (by decide : ¬Closes "  ".toList) readable.docs
      rw [docs] at stays
      have text : unlines (comment "  ".toList (first :: rest)) =
          "  ".toList ++
            ('/' :: '*' :: ('*' :: inside "  ".toList (first :: rest)) ++ ['*', '/']) ++
              ['\n'] := by
        refine (Part.unlines_lines (.comment "  ".toList first rest)).trans ?_
        simp [Part.text]
      rw [text]
      exact ⟨_, by decide, ((indent.append (counts_comment (not_closes_opened stays))).append
        (counts_padding among (by decide : IsPadding ['\n']))).append indent⟩

theorem readMember_code (readable : property.IsReadable) :
    readMember property.code = some property.member := by
  obtain ⟨name, key⟩ := readable.key
  have blank : Counts ':' 0 [' '] [' '] := counts_padding (by decide) (by decide)
  have type := blank.append ((readable.type ':' (by decide)).2 (by decide))
  have typed := unpadded_behind (by decide : IsPadding [' ']) readable.compact
  have named : Counts ':' 0 (propertyKey name ++ if property.optional then ['?'] else [])
      (propertyKey name ++ if property.optional then ['?'] else []) :=
    (counts_propertyKey (by decide)).append (counts_mark (by decide) property.optional)
  have parts : property.code =
      (propertyKey name ++ if property.optional then ['?'] else []) ++
        ':' :: ([' '] ++ property.type) := by
    rw [code, key, List.append_assoc]
    rfl
  rw [readMember, parts, cut_append_separator named (by decide), cut_of_counts type,
    List.map_cons, List.map_singleton, typed, member, key]
  cases property.optional with
  | false =>
      rw [if_neg Bool.false_ne_true, List.append_nil,
        unpadded_of_compact isCompact_propertyKey]
      exact congrArg some (if_neg getLast?_propertyKey)
  | true =>
      have marked := isCompact_append (isCompact_propertyKey : IsCompact (propertyKey name))
        (by decide : IsCompact ['?']) []
      rw [List.append_nil] at marked
      rw [if_pos rfl, unpadded_of_compact marked]
      refine congrArg some ((if_pos List.getLast?_concat).trans ?_)
      rw [List.dropLast_concat]

end IsReadable

end Property

theorem unlines_properties (properties : List Property) :
    unlines (properties.flatMap (·.lines)) = properties.flatMap fun property =>
      property.front ++ property.code ++ ";\n".toList := by
  rw [unlines, List.flatMap_assoc]
  exact List.flatMap_congr fun property _ => property.unlines_lines

theorem cut_properties {properties : List Property}
    (readable : ∀ property ∈ properties, property.IsReadable) :
    (cut ';' (['\n'] ++ unlines (properties.flatMap (·.lines)))).map unpadded =
      properties.map (·.code) ++ [[]] := by
  rw [unlines_properties]
  refine cut_lines (by decide) (by decide) (fun property member => ?_) (by decide)
    (counts_padding (by decide) (by decide))
  have here := readable property member
  have type := (here.type ';' (by decide)).2 (by decide)
  exact ⟨here.counts_front (by decide), here.counts_code (by decide) (by decide) type,
    here.isCompact_code⟩

/-! The body of an object. -/

def bodyText : List Property → List Char
  | [] => []
  | properties => '\n' :: unlines (properties.flatMap (·.lines))

theorem readMembers_bodyText {properties : List Property}
    (readable : ∀ property ∈ properties, property.IsReadable) :
    readMembers (bodyText properties) = some (properties.map (·.member)) := by
  have each : membersOf (properties.map (·.code) ++ [[]]) =
      some (properties.map (·.member)) := by
    induction properties with
    | nil => rfl
    | cons property rest induction =>
        obtain ⟨here, later⟩ := List.forall_mem_cons.mp readable
        rw [List.map_cons, List.cons_append, membersOf.eq_3 _ _ (by simp),
          here.readMember_code, induction later]
        rfl
  cases properties with
  | nil => rfl
  | cons first rest =>
      have pieces := cut_properties readable
      rw [readMembers, bodyText, ← each, ← pieces]
      · rfl
      · nofun

def objectCode (name : List Char) (nullable : Bool) (body : List Char) : List Char :=
  if nullable then
    "export type ".toList ++ name ++ " = \x7b".toList ++ body ++ "\x7d | null;".toList
  else "export interface ".toList ++ name ++ " \x7b".toList ++ body ++ "\x7d".toList

theorem intercalate_enclosed (opening closing : List Char) (properties : List Property) :
    ['\n'].intercalate (enclosed opening closing (properties.flatMap (·.lines))) =
      opening ++ bodyText properties ++ closing := by
  cases properties with
  | nil =>
      rw [bodyText, List.append_nil]
      exact List.intercalate_singleton
  | cons first rest =>
      have present : (first :: rest).flatMap (·.lines) ≠ [] := by
        simp [Property.lines]
      rw [enclosed_of_ne_nil present, intercalate_append_eq_unlines (List.cons_ne_nil _ _),
        List.intercalate_singleton, bodyText, List.singleton_append, unlines_cons]
      nofun

theorem Declaration.hasCode_object {declaration : Declaration} {nullable : Bool}
    {properties : List Property} (body : declaration.body = .object nullable properties) :
    declaration.HasCode
      (objectCode declaration.name.toList nullable (bodyText properties)) := by
  have code := declaration.hasCode_lines
  cases nullable <;> rwa [body, Body.lines, intercalate_enclosed] at code

/-! Fields. -/

section

variable (options : EmitOptions) (field : Field)

/-- The type that a field is written with. -/
def fieldType : TypeRef :=
  if field.nullable ∧ options.nullStyle = .unionWithNull then .nullable field.type
  else field.type

theorem names_fieldType : (fieldType options field).names = field.type.names := by
  unfold fieldType
  split <;> rfl

theorem signature_eq :
    signature options field =
      (match options.nullStyle with
        | .optionalField => field.nullable || !field.required
        | .unionWithNull => !field.required, typeText (fieldType options field)) := by
  unfold signature fieldType
  cases field.nullable <;> cases options.nullStyle <;> rfl

variable {field}

theorem isReadable_property (named : ∀ name ∈ field.type.names, IsTypeName name) :
    (property options field).IsReadable := by
  have type : (property options field).type = typeText (fieldType options field) :=
    congrArg Prod.snd (signature_eq options field)
  rw [← names_fieldType options field] at named
  refine ⟨⟨_, rfl⟩, ?_, ?_, not_closes_docLines field.docs⟩
  · rw [type]
    intro separator among
    obtain ⟨deep, shallow⟩ :=
      counts_typeText among fun name inside => (named name inside).letters
    exact ⟨deep, fun other => shallow fun bar => absurd bar other⟩
  · rw [type]
    exact isCompact_typeText named

theorem isReadable_fields {fields : List Field}
    (named : ∀ name ∈ (Definition.object fields).names, IsTypeName name) :
    ∀ written ∈ fields.map (property options), written.IsReadable := by
  refine List.forall_mem_map.mpr fun field among =>
    isReadable_property options fun name mentioned => named name ?_
  exact List.mem_flatMap.mpr ⟨field.type, List.mem_map_of_mem among, mentioned⟩

theorem members_of_object {declaration : Schemata.Declaration} {fields : List Field}
    (shape : declaration.definition = .object fields)
    (named : ∀ name ∈ declaration.definition.names, IsTypeName name) :
    ∃ body,
      (Declaration.ofModel options declaration).HasCode
        (objectCode declaration.name.toList declaration.nullable body) ∧
      readMembers body = some (fields.map fun field => (property options field).member) := by
  have body : (Declaration.ofModel options declaration).body =
      .object declaration.nullable (fields.map (property options)) := by
    rw [Declaration.ofModel, shape, bodyOf]
  rw [shape] at named
  refine ⟨_, Declaration.hasCode_object body, ?_⟩
  rw [readMembers_bodyText (isReadable_fields options named), List.map_map]
  rfl

end

/-- The names of the properties are read back from the keys that are written for them, so no
two keys are the same. -/
theorem property_keys_are_names {document : Node} {model : Model}
    (loaded : Document.Loaded document) (compiles : compile document = .ok model)
    (options : EmitOptions) {declaration : Schemata.Declaration}
    (member : declaration ∈ model.declarations) {fields : List Field}
    (shape : declaration.definition = .object fields) :
    ∃ body members,
      (Declaration.ofModel options declaration).HasCode
        (objectCode declaration.name.toList declaration.nullable body) ∧
      readMembers body = some members ∧
      List.Forall₂ (fun field member => keyName? member.key = some field.name.toList)
        fields members ∧
      (members.map (·.key)).Nodup := by
  obtain ⟨forest, _, resolves⟩ := Outcome.bind_eq_ok_iff.mp compiles
  have named := isTypeName_of_mentioned resolves declaration member
  obtain ⟨node, _, distinct, shaped⟩ := shapedBy_of_compile loaded compiles member
  rw [shape, Definition.ShapedBy] at shaped
  have names : (fields.map (·.name)).Nodup := by
    have held := shaped.nodup distinct
    rwa [List.map_map] at held
  obtain ⟨body, code, members⟩ := members_of_object options shape named
  have keys : ∀ field : Field,
      keyName? (property options field).member.key = some field.name.toList :=
    fun field => keyName?_propertyKey field.name.toList
  refine ⟨body, _, code, members, ?_, ?_⟩
  · exact List.forall₂_map_right_iff.mpr (List.forall₂_same.mpr fun field _ => keys field)
  · -- Each key is read back as its name, so equal keys would stand for equal names.
    refine List.Nodup.of_map keyName? ?_
    have read : ((fields.map fun field => (property options field).member).map (·.key)).map
        keyName? = (fields.map (·.name)).map fun name => some name.toList := by
      simp only [List.map_map, Function.comp_def, keys]
    rw [read]
    refine names.map fun left right same => ?_
    exact String.toList_inj.mp (Option.some.inj same)

end Schemata.TypeScript

namespace Schemata

def Definition.fieldNames : Definition → List String
  | object fields => fields.map (·.name)
  | _ => []

theorem Definition.exists_object {definition : Definition} {names : List String}
    (present : names ≠ []) (held : definition.fieldNames = names) :
    ∃ fields, definition = .object fields ∧ fields.map (·.name) = names := by
  cases definition with
  | object fields => exact ⟨fields, rfl, held⟩
  | primitive | enum | array | map | untypedMap | union | reference =>
      exact absurd held.symm present

namespace Document

def keyring : Node :=
  .mapping ⟨[]⟩ [("$defs", .mapping ⟨["$defs"]⟩
    [("Keyring", .mapping ⟨["$defs", "Keyring"]⟩
      [("properties", .mapping ⟨["$defs", "Keyring", "properties"]⟩
        [("", .mapping ⟨["$defs", "Keyring", "properties", ""]⟩
            [("type", .scalar ⟨["$defs", "Keyring", "properties", "", "type"]⟩
              (.string "string"))]),
          ("a?: \"b\";", .mapping ⟨["$defs", "Keyring", "properties", "a?: \"b\";"]⟩
            [("type", .scalar ⟨["$defs", "Keyring", "properties", "a?: \"b\";", "type"]⟩
              (.string "string"))]),
          ("a", .mapping ⟨["$defs", "Keyring", "properties", "a"]⟩
            [("type", .scalar ⟨["$defs", "Keyring", "properties", "a", "type"]⟩
              (.string "string"))])])])])]

theorem loaded_keyring : Loaded keyring := by
  refine ⟨"\x7b\"$defs\":\x7b\"Keyring\":\x7b\"properties\":\x7b\"\":\x7b\"type\":\"string\"\x7d,\"a?: \\\"b\\\";\":\x7b\"type\":\"string\"\x7d,\"a\":\x7b\"type\":\"string\"\x7d\x7d\x7d\x7d\x7d", .inl ?_⟩
  decide +kernel

end Document

open TypeScript in
theorem property_keys_are_names_keyring : Document.Loaded Document.keyring ∧
    ∃ model, compile Document.keyring = .ok model ∧
      ∃ declaration ∈ model.declarations, ∃ fields,
        declaration.definition = .object fields ∧
        fields.map (·.name) = ["", "a?: \"b\";", "a"] ∧
        ∃ body members,
          (Declaration.ofModel .standard declaration).HasCode
            (objectCode declaration.name.toList declaration.nullable body) ∧
          readMembers body = some members ∧
          List.Forall₂ (fun field member => keyName? member.key = some field.name.toList)
            fields members ∧
          (members.map (·.key)).Nodup := by
  refine ⟨Document.loaded_keyring, ?_⟩
  have computed : (compile Document.keyring).toOption.map (fun model =>
      model.declarations.map fun source => source.definition.fieldNames) =
        some [["", "a?: \"b\";", "a"]] := by
    decide +kernel
  cases compiles : compile Document.keyring with
  | error => rw [compiles] at computed; cases computed
  | ok model =>
      rw [compiles] at computed
      obtain ⟨declaration, whole, held⟩ := List.map_eq_singleton_iff.mp (Option.some.inj computed)
      obtain ⟨fields, shape, names⟩ := Definition.exists_object (List.cons_ne_nil _ _) held
      have member : declaration ∈ model.declarations := whole ▸ List.mem_singleton_self _
      exact ⟨model, rfl, declaration, member, fields, shape, names,
        property_keys_are_names Document.loaded_keyring compiles .standard member shape⟩

end Schemata
