import Schemata.CompileError
import Schemata.Document.Node
import Schemata.Schema.Basic

namespace Schemata.Keyword

/-! The keywords of a schema that do not hold further schemas. -/

def malformed (location : Location) (fault : Fault) : Except CompileError α :=
  .error (.malformed location fault)

/-- An example is the value of `example` or the first of `examples`. -/
def docs (node : Node) : Docs where
  description := (node.get? "description").bind (·.string?)
  sample :=
    ((node.get? "example").or
      ((node.get? "examples").bind fun examples =>
        examples.items?.bind (·.head?))).map (·.toJson)
  format := (node.get? "format").bind (·.string?)

def nullable (node : Node) : Except CompileError Bool :=
  match node.get? "nullable" with
  | none => .ok false
  | some flag =>
      match flag.bool? with
      | some value => .ok value
      | none => malformed flag.location .nullableNotBoolean

inductive TypeWord where
  | string
  | number
  | integer
  | boolean
  | object
  | array
  deriving DecidableEq

def TypeWord.read? : String → Option TypeWord
  | "string" => some .string
  | "number" => some .number
  | "integer" => some .integer
  | "boolean" => some .boolean
  | "object" => some .object
  | "array" => some .array
  | _ => none

/-- The words under `type`, without repetitions, and whether `null` is one. -/
structure TypeWords where
  words : List TypeWord
  null : Bool

def TypeWords.add (types : TypeWords) (entry : Node) :
    Except CompileError TypeWords :=
  match entry.string? with
  | none => malformed entry.location .typeEntryNotString
  | some "null" => .ok { types with null := true }
  | some name =>
      match TypeWord.read? name with
      | none => malformed entry.location (.unknownType name)
      | some word =>
          if word ∈ types.words then .ok types
          else .ok { types with words := types.words ++ [word] }

def types (node : Node) : Except CompileError TypeWords :=
  match node.get? "type" with
  | none => .ok ⟨[], false⟩
  | some (.scalar location (.string name)) =>
      TypeWords.add ⟨[], false⟩ (.scalar location (.string name))
  | some (.sequence _ entries) => entries.foldlM TypeWords.add ⟨[], false⟩
  | some declared => malformed declared.location .typeNotNames

def required (node : Node) : Except CompileError (List String) :=
  match node.get? "required" with
  | none => .ok []
  | some names =>
      match names.items?.bind (·.mapM (·.string?)) with
      | some names => .ok names
      | none => malformed names.location .requiredNotNames

def literal (node : Node) : Except CompileError Literal :=
  match node.scalar? with
  | some (.string value) => .ok (.string value)
  | some (.number value) => .ok (.number value)
  | some (.bool value) => .ok (.boolean value)
  | some .null => .ok .null
  | none => malformed node.location .enumValueNotScalar

/-- Reads literals one after the other. None may equal an earlier one. -/
def distinctLiterals (earlier : List Literal) :
    List Node → Except CompileError (List Literal)
  | [] => .ok earlier
  | item :: rest => do
      let value ← literal item
      if earlier.any (decide <| value.Equals ·) then
        .error (.duplicateValue item.location value)
      else distinctLiterals (earlier ++ [value]) rest

def enum (values : Node) : Except CompileError (List Literal) :=
  match values.items? with
  | none => malformed values.location .enumNotSequence
  | some [] => malformed values.location .emptyEnum
  | some items => distinctLiterals [] items

/-- A string type may be refined by its format. -/
def primitive (node : Node) : TypeWord → Primitive
  | .number => .number
  | .integer => .integer
  | .boolean => .boolean
  | _ =>
      match (node.get? "format").bind (·.string?) with
      | some "binary" | some "byte" => .binary
      | some "date-time" | some "date" => .dateTime
      | _ => .string

def IsNull (node : Node) : Prop :=
  (node.get? "type").bind (·.string?) = some "null"

instance (node : Node) : Decidable (IsNull node) :=
  inferInstanceAs (Decidable (_ = _))

end Schemata.Keyword
