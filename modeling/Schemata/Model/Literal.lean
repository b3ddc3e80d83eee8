import Schemata.Json.Quoted
import Schemata.Number.Notation

namespace Schemata

/-! Literal values, of which enumerations consist. -/

inductive Literal where
  | string (value : String)
  | number (value : Number)
  | boolean (value : Bool)
  | null
  deriving DecidableEq

inductive LiteralKind where
  | string
  | number
  | boolean
  | null
  deriving DecidableEq

namespace Literal

def kind : Literal → LiteralKind
  | string _ => .string
  | number _ => .number
  | boolean _ => .boolean
  | null => .null

/-- Equality of values. Literals of different kinds are never equal. -/
def Equals : Literal → Literal → Prop
  | string left, string right => left = right
  | number left, number right => left.Equals right
  | boolean left, boolean right => left = right
  | null, null => True
  | _, _ => False

instance (left right : Literal) : Decidable (left.Equals right) := by
  cases left <;> cases right <;> simp only [Equals] <;> infer_instance

def text : Literal → String
  | string value => Json.quote value
  | number value => String.ofList value.text
  | boolean true => "true"
  | boolean false => "false"
  | null => "null"

end Literal

end Schemata
