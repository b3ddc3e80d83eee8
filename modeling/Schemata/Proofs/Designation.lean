import Schemata.Compilation
import Schemata.Proofs.Document.Loaded
import Schemata.Proofs.Document.Pointer
import Schemata.Proofs.Document.Section
import Schemata.Proofs.Resolution.Closure
import Schemata.Proofs.Schema.Subschemas

namespace Schemata

/-! References go by the name that their pointer ends in, and so mean the schema that the
pointer designates when it leads into the section of the schemas. -/

/-- The node is an entry of the section of schemas or read as a schema on the way to the
schema of one. -/
def Document.ReadsAsSchema (document node : Node) : Prop :=
  ∃ declared entries entry, Forest.section? document = some declared ∧
    declared.entries? = some entries ∧ entry ∈ entries ∧
    Relation.ReflTransGen (fun outer inner => inner ∈ outer.subschemas) entry.2 node

/-- What a reference means in a document with its model. -/
structure Document.Means (document : Node) (model : Model) (pointer : String)
    (root : String × Schema) : Prop where
  /-- The last segment of the pointer is the name of the root, whichever section comes
  before it. -/
  named : ∃ section_ segment, pointer.toList = Reference.Section.stem section_ ++ segment ∧
    segment ≠ [] ∧ '/' ∉ segment ∧
    root.1 = String.ofList (Reference.unescape segment)
  declared : ∃ forest, Forest.ofDocument document = .ok forest ∧ root ∈ forest.roots
  typed : ∃ declaration, model.get? (typeName root.1) = some declaration ∧
    declaration.location = root.2.location
  /-- A declaration mentions the root by the name it has in the model. -/
  written : ∃ declaration ∈ model.declarations,
    typeName root.1 ∈ declaration.definition.names
  /-- With the section that the schemas are taken from and no stray tilde, the root is
  built from the node that the pointer designates. -/
  designated : ∀ section_, Forest.located? document = some section_ →
    section_.stem <+: pointer.toList → (Pointer.segments? pointer.toList).isSome →
    ∃ target, document.designated? pointer = some target ∧
      Schema.ofNode target = .ok root.2

theorem Reference.Section.eq_of_prefix {section_ other : Reference.Section}
    {segment : List Char} (starts : other.stem <+: section_.stem ++ segment) :
    other = section_ := by
  obtain ⟨rest, whole⟩ := starts
  cases section_ <;> cases other
  all_goals first
    | rfl
    | simp [stem, keys, Location.pointer, Location.escape] at whole

namespace Forest

theorem read_of_ofDocument {document declared : Node} {entries : List (String × Node)}
    {forest : Forest} (builds : ofDocument document = .ok forest)
    (located : Forest.section? document = some declared)
    (held : declared.entries? = some entries) :
    ∃ roots, forest.roots = Entries.ofList roots ∧
      List.Forall₂ (fun entry root =>
        root.1 = entry.1 ∧ Schema.ofNode entry.2 = .ok root.2) entries roots := by
  rw [ofDocument] at builds
  split at builds
  · cases builds
  · rw [located] at builds
    dsimp only at builds
    rw [held] at builds
    obtain ⟨roots, each, made⟩ := Outcome.bind_eq_ok_iff.mp builds
    cases made
    refine ⟨roots, rfl, (Outcome.mapM_eq_ok_iff.mp each).imp fun entry root read => ?_⟩
    obtain ⟨schema, inner, same⟩ := Outcome.bind_eq_ok_iff.mp read
    cases same
    exact ⟨rfl, inner⟩

theorem entries_of_ofDocument {document declared : Node} {forest : Forest}
    (builds : ofDocument document = .ok forest)
    (located : Forest.section? document = some declared) :
    ∃ entries, declared.entries? = some entries := by
  rw [ofDocument] at builds
  split at builds
  · cases builds
  · rw [located] at builds
    cases held : declared.entries? with
    | none => dsimp only at builds; rw [held] at builds; cases builds
    | some entries => exact ⟨entries, rfl⟩

theorem names_of_read {entries : List (String × Node)} {roots : List (String × Schema)}
    (each : List.Forall₂ (fun entry root =>
      root.1 = entry.1 ∧ Schema.ofNode entry.2 = .ok root.2) entries roots) :
    roots.map Prod.fst = entries.map Prod.fst := by
  induction each with
  | nil => rfl
  | cons first _ induction => rw [List.map_cons, List.map_cons, first.1, induction]

/-- In a document with distinct keys, every entry of the section is a root. -/
theorem roots_of_ofDocument {document declared : Node} {entries : List (String × Node)}
    {forest : Forest} (distinct : document.KeysDistinct)
    (builds : ofDocument document = .ok forest)
    (located : Forest.section? document = some declared)
    (held : declared.entries? = some entries) :
    (entries.map Prod.fst).Nodup ∧
      List.Forall₂ (fun entry root =>
        root.1 = entry.1 ∧ Schema.ofNode entry.2 = .ok root.2) entries forest.roots := by
  obtain ⟨section_, _, below⟩ :=
    Option.bind_eq_some_iff.mp ((section?_eq_below? document).symm.trans located)
  have inner := distinct.below? below
  cases inner with
  | scalar | sequence => cases held
  | mapping _ keys =>
      cases held
      obtain ⟨roots, kept, each⟩ := read_of_ofDocument builds located rfl
      refine ⟨keys, ?_⟩
      rw [kept, Entries.ofList_of_nodup]
      · exact each
      · rwa [Entries.names, names_of_read each]

theorem segments?_of_stem {section_ : Reference.Section} {segment : List Char}
    (free : '/' ∉ segment)
    (wellFormed : (Pointer.segments? (section_.stem ++ segment)).isSome) :
    Pointer.segments? (section_.stem ++ segment) =
      some (section_.keys ++ [String.ofList (Reference.unescape segment)]) := by
  have child := Pointer.segments?_child ⟨section_.keys⟩ free
  rw [Reference.Section.stem, List.append_assoc, List.singleton_append, child]
    at wellFormed ⊢
  rw [Option.isSome_map] at wellFormed
  obtain ⟨name, read⟩ := Option.isSome_iff_exists.mp wellFormed
  rw [read, Option.map_some, Pointer.unescape_of_unescape? read]

theorem designated_of_root {document : Node} {forest : Forest} {root : String × Schema}
    {section_ : Reference.Section} {pointer : String} {segment : List Char}
    (distinct : document.KeysDistinct) (builds : ofDocument document = .ok forest)
    (declared : root ∈ forest.roots) (located : located? document = some section_)
    (whole : pointer.toList = section_.stem ++ segment) (free : '/' ∉ segment)
    (named : root.1 = String.ofList (Reference.unescape segment))
    (wellFormed : (Pointer.segments? pointer.toList).isSome) :
    ∃ target, document.designated? pointer = some target ∧
      Schema.ofNode target = .ok root.2 := by
  obtain ⟨held, below⟩ := below?_of_located located
  have found : Forest.section? document = some held := by
    rw [section?_eq_below?, located, Option.bind_some, below]
  obtain ⟨entries, shape⟩ := entries_of_ofDocument builds found
  obtain ⟨keys, each⟩ := roots_of_ofDocument distinct builds found shape
  obtain ⟨entry, member, same, read⟩ := Outcome.exists_of_forall₂ each.flip declared
  have stands : held.child? root.1 = some entry.2 := by
    refine Node.child?_of_get? ?_
    rw [Node.get?, shape, Option.bind_some, Entries.lookup_eq_some_iff keys, same]
    exact member
  rw [whole] at wellFormed
  refine ⟨entry.2, ?_, read⟩
  rw [Node.designated?, whole, segments?_of_stem free wellFormed, ← named,
    Option.bind_some, Node.at?_append, Node.at?_of_below? below, Option.bind_some,
    Node.at?, List.foldlM_cons, stands]
  rfl

end Forest

namespace Document

theorem readsAsSchema_entry {document declared node : Node} (name : String)
    (located : Forest.section? document = some declared)
    (held : declared.get? name = some node) : ReadsAsSchema document node := by
  cases declared with
  | scalar | sequence => cases held
  | mapping _ entries =>
      exact ⟨_, entries, (name, node), located, rfl, Node.mem_of_get? held, .refl⟩

theorem ReadsAsSchema.step {document node inner : Node}
    (read : ReadsAsSchema document node) (member : inner ∈ node.subschemas) :
    ReadsAsSchema document inner := by
  obtain ⟨declared, entries, entry, located, held, among, below⟩ := read
  exact ⟨declared, entries, entry, located, held, among, below.tail member⟩

/-! Documents with references. -/

def typeNode (location : Location) : Node :=
  .mapping location [("type", .scalar (location.child "type") (.string "string"))]

def refNode (location : Location) (pointer : String) : Node :=
  .mapping location [("$ref", .scalar (location.child "$ref") (.string pointer))]

/-- A reference inside an array, with an escaped slash. -/
def catalogue : Node :=
  .mapping ⟨[]⟩ [("definitions", .mapping ⟨["definitions"]⟩
    [("a/b", typeNode ⟨["definitions", "a/b"]⟩),
      ("List", .mapping ⟨["definitions", "List"]⟩
        [("items", refNode ⟨["definitions", "List", "items"]⟩ "#/definitions/a~1b")])])]

theorem loaded_catalogue : Loaded catalogue := by
  refine ⟨"\x7b\"definitions\":\x7b\"a/b\":\x7b\"type\":\"string\"\x7d,\"List\":\x7b\"items\":\x7b\"$ref\":\"#/definitions/a~1b\"\x7d\x7d\x7d\x7d", .inl ?_⟩
  decide +kernel

/-- References that resolve although their pointers designate nothing: one names another
section, and one has a stray tilde. -/
def astray : Node :=
  .mapping ⟨[]⟩ [("components", .mapping ⟨["components"]⟩
    [("schemas", .mapping ⟨["components", "schemas"]⟩
      [("A", typeNode ⟨["components", "schemas", "A"]⟩),
        ("a~2b", typeNode ⟨["components", "schemas", "a~2b"]⟩),
        ("B", refNode ⟨["components", "schemas", "B"]⟩ "#/$defs/A"),
        ("C", refNode ⟨["components", "schemas", "C"]⟩
          "#/components/schemas/a~2b")])])]

theorem loaded_astray : Loaded astray := by
  refine ⟨"\x7b\"components\":\x7b\"schemas\":\x7b\"A\":\x7b\"type\":\"string\"\x7d,\"a~2b\":\x7b\"type\":\"string\"\x7d,\"B\":\x7b\"$ref\":\"#/$defs/A\"\x7d,\"C\":\x7b\"$ref\":\"#/components/schemas/a~2b\"\x7d\x7d\x7d\x7d", .inl ?_⟩
  decide +kernel

end Document

theorem reference_means_designated {document node : Node} {model : Model}
    {at_ : Location} {pointer : String} (loaded : Document.Loaded document)
    (compiles : compile document = .ok model)
    (read : Document.ReadsAsSchema document node)
    (refers : node.get? "$ref" = some (.scalar at_ (.string pointer))) :
    ∃ info root, Schema.ofNode node = .ok (.reference info root.1) ∧
      Document.Means document model pointer root := by
  obtain ⟨forest, builds, resolves⟩ := Outcome.bind_eq_ok_iff.mp compiles
  obtain ⟨declared, entries, entry, located, held, member, below⟩ := read
  obtain ⟨_, each⟩ := Forest.roots_of_ofDocument loaded.keysDistinct builds located held
  obtain ⟨outer, among, _, outerRead⟩ := Outcome.exists_of_forall₂ each member
  obtain ⟨schema, made, inside⟩ := Schema.ofNode_of_reads below outerRead
  obtain ⟨info, target, rfl, _, reading⟩ := Schema.reference_of_ofNode refers made
  have own : (target, info.location) ∈ (Schema.reference info target).references :=
    List.mem_cons_self
  obtain ⟨inner, within, _⟩ := Schema.mem_references.mp (inside own)
  obtain ⟨assignment, resolved⟩ := Resolution.resolved_of_ok resolves
  obtain ⟨root, rooted, rfl⟩ :=
    List.mem_map.mp (resolved.references outer among inner target within)
  obtain ⟨section_, segment, whole, proper, free, named⟩ :=
    Reference.below_of_read reading
  refine ⟨info, root, made, ⟨section_, segment, whole, proper, free, named⟩,
    ⟨forest, builds, rooted⟩, ⟨_, resolved.get?_root rooted, rfl⟩,
    resolved.reference_written among within, ?_⟩
  intro other located starts wellFormed
  rw [whole] at starts
  obtain rfl := Reference.Section.eq_of_prefix starts
  exact Forest.designated_of_root loaded.keysDistinct builds rooted located whole free
    named wellFormed

theorem reference_means_designated_catalogue : ∃ node model,
    Document.Loaded Document.catalogue ∧ compile Document.catalogue = .ok model ∧
    Document.ReadsAsSchema Document.catalogue node ∧
    ∃ info root, Schema.ofNode node = .ok (.reference info root.1) ∧
      Document.Means Document.catalogue model "#/definitions/a~1b" root := by
  have compiles : (compile Document.catalogue).toOption.isSome := by decide +kernel
  cases result : compile Document.catalogue with
  | error => rw [result] at compiles; cases compiles
  | ok model =>
      have outer : Document.ReadsAsSchema Document.catalogue
          (.mapping ⟨["definitions", "List"]⟩ [("items",
            Document.refNode ⟨["definitions", "List", "items"]⟩
              "#/definitions/a~1b")]) :=
        Document.readsAsSchema_entry "List" rfl rfl
      have read := outer.step List.mem_cons_self
      exact ⟨_, model, Document.loaded_catalogue, rfl, read,
        reference_means_designated Document.loaded_catalogue result read rfl⟩

theorem not_designated_astray : ∃ model first second,
    Document.Loaded Document.astray ∧ compile Document.astray = .ok model ∧
    (Document.ReadsAsSchema Document.astray first ∧
      (first.get? "$ref").bind Node.string? = some "#/$defs/A" ∧
      (Document.astray.designated? "#/$defs/A").isNone) ∧
    (Document.ReadsAsSchema Document.astray second ∧
      (second.get? "$ref").bind Node.string? = some "#/components/schemas/a~2b" ∧
      (Document.astray.designated? "#/components/schemas/a~2b").isNone) := by
  have compiles : (compile Document.astray).toOption.isSome := by decide +kernel
  cases result : compile Document.astray with
  | error => rw [result] at compiles; cases compiles
  | ok model =>
      refine ⟨model, Document.refNode ⟨["components", "schemas", "B"]⟩ "#/$defs/A",
        Document.refNode ⟨["components", "schemas", "C"]⟩ "#/components/schemas/a~2b",
        Document.loaded_astray, rfl, ⟨?_, rfl, ?_⟩, ⟨?_, rfl, ?_⟩⟩
      · exact Document.readsAsSchema_entry "B" rfl rfl
      · decide +kernel
      · exact Document.readsAsSchema_entry "C" rfl rfl
      · decide +kernel

end Schemata
