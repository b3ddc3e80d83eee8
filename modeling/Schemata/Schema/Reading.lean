import Schemata.Schema.Keyword
import Schemata.Schema.Reference

namespace Schemata

/-! What the nodes of a document mean as schemas. The meaning of a node is put
together from the meanings of the nodes below it. -/

/-- A node and its meaning as a schema, as a list of schemas and as a list of
named schemas. -/
structure Reading where
  node : Node
  schema : Except CompileError Schema
  members : List (Node × Except CompileError Schema)
  entries : List (String × Except CompileError Schema)

namespace Reading

open Keyword

/-- A mapping that is being read: its node and the readings of its values. -/
structure Source where
  node : Node
  values : List (String × Reading)

namespace Source

def location (source : Source) : Location := source.node.location

def value? (source : Source) (keyword : String) : Option Reading :=
  source.values.lookup keyword

def properties? (source : Source) (required : List String) :
    Except CompileError (Option (List (Property Schema))) :=
  match source.value? "properties" with
  | none => .ok none
  | some properties =>
      if properties.node.entries?.isNone then
        malformed properties.node.location .propertiesNotMapping
      else do
        return some <| ← properties.entries.mapM fun (name, schema) => do
          return { name, required := name ∈ required, schema := ← schema }

/-- Without properties, or with none of them declared, an object is what its additional
properties make of it. -/
def propertyless (source : Source) (info : SchemaInfo) (declared : Bool) :
    Except CompileError Schema :=
  match source.value? "additionalProperties" with
  | none =>
      if declared then .ok (.object info [])
      else malformed source.location .shapelessObject
  | some additional =>
      match additional.node with
      | .scalar _ (.bool true) => .ok (.untypedMap info)
      | .scalar _ (.bool false) =>
          if declared then .ok (.object info [])
          else malformed source.location .closedEmptyObject
      | .mapping _ [] => .ok (.untypedMap info)
      | .mapping _ (_ :: _) => do return .map info (← additional.schema)
      | .scalar location _ | .sequence location _ =>
          malformed location .additionalPropertiesNotSchema

def object (source : Source) (info : SchemaInfo) :
    Except CompileError Schema := do
  match ← source.properties? (← required source.node) with
  | some (first :: rest) => return .object info (first :: rest)
  | properties => source.propertyless info properties.isSome

def array (source : Source) (info : SchemaInfo) :
    Except CompileError Schema := do
  match source.value? "items" with
  | none => malformed source.location .arrayWithoutItems
  | some items =>
      if items.node.entries?.isNone then
        malformed items.node.location .itemsNotSchema
      else return .array info (← items.schema)

/-- The members of a list of primitive types have no place of their own. -/
def primitiveUnion (source : Source) (info : SchemaInfo)
    (words : List TypeWord) : Except CompileError Schema :=
  if words.any fun word => word = .object ∨ word = .array then
    malformed source.location .mixedTypeList
  else
    let variantInfo : SchemaInfo :=
      ⟨false, .empty, source.location.child "type"⟩
    .ok <| .union info <| words.map fun word =>
      .primitive variantInfo (primitive source.node word)

/-- Without a type, the keywords of a shape imply it. -/
def ofTypes (source : Source) (info : SchemaInfo) (types : TypeWords) :
    Except CompileError Schema :=
  match types.words with
  | [] =>
      if types.null then malformed source.location .standaloneNull
      else if (source.value? "properties").isSome ∨
          (source.value? "additionalProperties").isSome then
        source.object info
      else if (source.value? "items").isSome then source.array info
      else malformed source.location .noType
  | [.object] => source.object info
  | [.array] => source.array info
  | [word] => .ok (.primitive info (primitive source.node word))
  | words => source.primitiveUnion info words

def ofValues (source : Source) (info : SchemaInfo) (types : TypeWords) :
    Except CompileError Schema :=
  match source.value? "enum", source.value? "const" with
  | some values, _ => return .enum info (← enum values.node)
  | none, some value => return .enum info [← literal value.node]
  | none, none => source.ofTypes info types

/-- The members under a composition keyword, of which there must be one. -/
def composed (keyword : CompositionKeyword) (reading : Reading) :
    Except CompileError (List (Node × Except CompileError Schema)) :=
  if reading.node.items?.isNone then
    malformed reading.node.location (.compositionNotSequence keyword)
  else if reading.members.isEmpty then
    malformed reading.node.location (.emptyComposition keyword)
  else .ok reading.members

/-- Null members make the schema nullable, and a single other member takes its
place. -/
def ofAlternatives (info : SchemaInfo) (keyword : CompositionKeyword)
    (reading : Reading) : Except CompileError Schema := do
  let members ← composed keyword reading
  let nullable := info.nullable || members.any (decide <| IsNull ·.1)
  let variants ←
    (members.filter (¬IsNull ·.1)).mapM (·.2)
  match variants with
  | [] => malformed reading.node.location (.onlyNullMembers keyword)
  | [only] => return only.wrappedBy info.docs nullable
  | variants => return .union { info with nullable } variants

def ofAll (info : SchemaInfo) (reading : Reading) :
    Except CompileError Schema := do
  match ← composed .allOf reading with
  | [(_, only)] => return (← only).wrappedBy info.docs info.nullable
  | _ => malformed reading.node.location .severalInAllOf

/-- A reference comes first, then alternatives, then `allOf`, then listed values
and last the type. -/
def schema (source : Source) : Except CompileError Schema := do
  let nullable ← nullable source.node
  let info : SchemaInfo := ⟨nullable, docs source.node, source.location⟩
  if let some reference := source.node.get? "$ref" then
    match reference.string? with
    | none => malformed reference.location .referenceNotString
    | some pointer =>
        return .reference info (← Reference.read pointer reference.location)
  else
    let types ← types source.node
    let info := { info with nullable := nullable || types.null }
    match source.value? "oneOf", source.value? "anyOf", source.value? "allOf" with
    | some members, _, _ => ofAlternatives info .oneOf members
    | none, some members, _ => ofAlternatives info .anyOf members
    | none, none, some members => ofAll info members
    | none, none, none => source.ofValues info types

end Source

mutual
def ofNode : Node → Reading
  | .scalar location value =>
      { node := .scalar location value
        schema := malformed location .schemaNotMapping
        members := []
        entries := [] }
  | .sequence location items =>
      { node := .sequence location items
        schema := malformed location .schemaNotMapping
        members := ofItems items
        entries := [] }
  | .mapping location entries =>
      let values := ofEntries entries
      { node := .mapping location entries
        schema := Source.schema ⟨.mapping location entries, values⟩
        members := []
        entries := values.map fun (key, value) => (key, value.schema) }

private def ofItems : List Node → List (Node × Except CompileError Schema)
  | [] => []
  | item :: rest => (item, (ofNode item).schema) :: ofItems rest

private def ofEntries : List (String × Node) → List (String × Reading)
  | [] => []
  | (key, value) :: rest => (key, ofNode value) :: ofEntries rest
end

private theorem ofItems_eq (items : List Node) :
    ofItems items = items.map fun item => (item, (ofNode item).schema) := by
  induction items with
  | nil => rfl
  | cons item rest induction => rw [ofItems, induction, List.map_cons]

private theorem ofEntries_eq (entries : List (String × Node)) :
    ofEntries entries = entries.map fun entry => (entry.1, ofNode entry.2) := by
  induction entries with
  | nil => rfl
  | cons entry rest induction => rw [ofEntries, induction, List.map_cons]

@[simp] theorem node_ofNode (node : Node) : (ofNode node).node = node := by
  cases node <;> rfl

@[simp] theorem members_ofNode (node : Node) :
    (ofNode node).members =
      (node.items?.getD []).map fun item => (item, (ofNode item).schema) := by
  cases node with
  | scalar | mapping => rfl
  | sequence _ items => exact ofItems_eq items

@[simp] theorem entries_ofNode (node : Node) :
    (ofNode node).entries =
      (node.entries?.getD []).map fun entry => (entry.1, (ofNode entry.2).schema) := by
  cases node with
  | scalar | sequence => rfl
  | mapping _ entries =>
      simp only [ofNode, ofEntries_eq, List.map_map, Node.entries?, Option.getD_some,
        Function.comp_def]

def Source.ofMapping (location : Location) (entries : List (String × Node)) :
    Source where
  node := .mapping location entries
  values := entries.map fun entry => (entry.1, ofNode entry.2)

theorem schema_ofMapping (location : Location) (entries : List (String × Node)) :
    (ofNode (.mapping location entries)).schema =
      (Source.ofMapping location entries).schema := by
  rw [ofNode, ofEntries_eq, Source.ofMapping]

theorem Source.value?_ofMapping (location : Location)
    (entries : List (String × Node)) (keyword : String) :
    (ofMapping location entries).value? keyword =
      (entries.lookup keyword).map ofNode :=
  Entries.lookup_map fun _ => ofNode

end Reading

def Schema.ofNode (node : Node) : Except CompileError Schema :=
  (Reading.ofNode node).schema

end Schemata
