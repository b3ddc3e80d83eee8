import Schemata.Model.Basic
import Schemata.Naming.Suffix
import Schemata.Naming.ValueName
import Schemata.PureScript.TypeText

namespace Schemata.PureScript

/-! Data constructors, which share one namespace in a module. -/

structure Constructors where
  used : List String

namespace Constructors

def empty : Constructors := ⟨[]⟩

/-- Every object has a constructor of its own name. -/
def ofModel (model : Model) : Constructors where
  used := model.declarations.filterMap fun declaration =>
    match declaration.definition with
    | .object _ => some declaration.name
    | _ => none

/-- Takes the preferred name, else the qualified one, else the qualified one with
a number. -/
def claim (constructors : Constructors) (preferred qualified : String) :
    String × Constructors :=
  let name :=
    if preferred ∉ constructors.used then preferred
    else if qualified ∉ constructors.used then qualified
    else freeSuffixed constructors.used qualified
  (name, ⟨name :: constructors.used⟩)

def claimAll (constructors : Constructors) :
    List (String × String) → List String × Constructors
  | [] => ([], constructors)
  | (preferred, qualified) :: rest =>
      let (name, constructors) := constructors.claim preferred qualified
      let (names, constructors) := constructors.claimAll rest
      (name :: names, constructors)

end Constructors

/-- A variant is labelled by the type it carries. -/
def variantLabel : TypeRef → String
  | .primitive kind => String.ofList (primitiveText kind)
  | .named name => name
  | .array element => "Array" ++ variantLabel element
  | .map _ | .untypedMap => "Object"
  | .nullable inner => "Nullable" ++ variantLabel inner

def constructorRequests (declaration : Declaration) : List (String × String) :=
  let name := declaration.name
  let null := (name ++ "Null", name ++ "Null")
  match declaration.definition with
  | .enum values =>
      let requests := values.map fun value =>
        (value.valueName, name ++ value.valueName)
      if declaration.nullable && values.all (· ≠ .null) then requests ++ [null]
      else requests
  | .union variants =>
      let requests := variants.map fun variant =>
        (name ++ variantLabel variant, name ++ variantLabel variant)
      if declaration.nullable then requests ++ [null] else requests
  | _ => []

end Schemata.PureScript
