import Schemata.Schema.Basic

namespace Schemata

/-! Schemas without descriptions and examples. A format is kept, since it may decide on
a type. -/

def Docs.plain (docs : Docs) : Docs :=
  { Docs.empty with format := docs.format }

def SchemaInfo.plain (info : SchemaInfo) : SchemaInfo :=
  { info with docs := info.docs.plain }

namespace SchemaInfo

variable {info other : SchemaInfo}

theorem nullable_of_plain (same : info.plain = other.plain) :
    info.nullable = other.nullable := by
  injection same

theorem plain_withNullable (same : info.plain = other.plain) (nullable : Bool) :
    { info with nullable }.plain = { other with nullable }.plain := by
  injection same with _ docs location
  rw [plain, plain, docs, location]

end SchemaInfo

namespace Schema

mutual
def plain : Schema → Schema
  | .reference info target => .reference info.plain target
  | .primitive info kind => .primitive info.plain kind
  | .enum info values => .enum info.plain values
  | .object info properties => .object info.plain (plainProperties properties)
  | .array info items => .array info.plain items.plain
  | .map info values => .map info.plain values.plain
  | .untypedMap info => .untypedMap info.plain
  | .union info variants => .union info.plain (plainVariants variants)

def plainProperties : List (Property Schema) → List (Property Schema)
  | [] => []
  | ⟨name, required, schema⟩ :: rest =>
      ⟨name, required, schema.plain⟩ :: plainProperties rest

def plainVariants : List Schema → List Schema
  | [] => []
  | variant :: rest => variant.plain :: plainVariants rest
end

@[simp] theorem info_plain (schema : Schema) : schema.plain.info = schema.info.plain := by
  cases schema <;> rfl

@[simp] theorem nullable_plain (schema : Schema) :
    schema.plain.nullable = schema.nullable := by
  rw [nullable, info_plain]
  rfl

@[simp] theorem location_plain (schema : Schema) :
    schema.plain.location = schema.location := by
  rw [location, info_plain]
  rfl

@[simp] theorem docs_plain (schema : Schema) :
    schema.plain.docs = schema.docs.plain := by
  rw [docs, info_plain]
  rfl

theorem plain_withInfo (info : SchemaInfo) (schema : Schema) :
    (schema.withInfo info).plain = schema.plain.withInfo info.plain := by
  cases schema <;> rfl

theorem plain_wrappedBy (docs : Docs) (nullable : Bool) (schema : Schema) :
    (schema.wrappedBy docs nullable).plain =
      schema.plain.wrappedBy docs.plain nullable := by
  rw [wrappedBy, wrappedBy, plain_withInfo, nullable_plain, docs_plain,
    location_plain]
  rfl

end Schema

def Forest.plain (forest : Forest) : Forest where
  roots := forest.roots.map fun root => (root.1, root.2.plain)
  distinct := by
    rw [List.map_map]
    exact forest.distinct

theorem Forest.lookup_plain (forest : Forest) (root : String) :
    forest.plain.roots.lookup root =
      (forest.roots.lookup root).map Schema.plain :=
  Entries.lookup_map fun _ => Schema.plain

end Schemata
