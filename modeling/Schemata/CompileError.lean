import Schemata.Document.LoadError
import Schemata.Model.Literal

namespace Schemata

/-! Why a document has no model. -/

inductive CompositionKeyword where
  | oneOf
  | anyOf
  | allOf
  deriving DecidableEq

def CompositionKeyword.text : CompositionKeyword → String
  | oneOf => "oneOf"
  | anyOf => "anyOf"
  | allOf => "allOf"

inductive Fault where
  | documentNotMapping
  | sectionNotMapping
  | schemaNotMapping
  | nullableNotBoolean
  | referenceNotString
  | unsupportedReference (pointer : String)
  | compositionNotSequence (keyword : CompositionKeyword)
  | emptyComposition (keyword : CompositionKeyword)
  | onlyNullMembers (keyword : CompositionKeyword)
  | severalInAllOf
  | typeNotNames
  | typeEntryNotString
  | unknownType (name : String)
  | standaloneNull
  | noType
  | mixedTypeList
  | propertiesNotMapping
  | requiredNotNames
  | shapelessObject
  | closedEmptyObject
  | additionalPropertiesNotSchema
  | arrayWithoutItems
  | itemsNotSchema
  | enumNotSequence
  | emptyEnum
  | enumValueNotScalar
  | aliasCycle (target : String)
  deriving DecidableEq

def Fault.message : Fault → String
  | documentNotMapping => "document root must be a mapping"
  | sectionNotMapping => "schema section must be a mapping"
  | schemaNotMapping => "expected a schema mapping"
  | nullableNotBoolean => "`nullable` must be a boolean"
  | referenceNotString => "`$ref` must be a string"
  | unsupportedReference pointer => "unsupported reference `" ++ pointer ++ "`"
  | compositionNotSequence keyword =>
      "`" ++ keyword.text ++ "` must be a sequence of schemas"
  | emptyComposition keyword => "`" ++ keyword.text ++ "` must not be empty"
  | onlyNullMembers keyword =>
      "`" ++ keyword.text ++ "` must list at least one non-null schema"
  | severalInAllOf => "`allOf` composition of several schemas is not supported"
  | typeNotNames => "`type` must be a string or a sequence of strings"
  | typeEntryNotString => "`type` entries must be strings"
  | unknownType name => "unknown type `" ++ name ++ "`"
  | standaloneNull => "a standalone `null` type has no shape"
  | noType => "schema declares no type"
  | mixedTypeList => "a `type` list may only combine primitive types"
  | propertiesNotMapping => "`properties` must be a mapping"
  | requiredNotNames => "`required` must be a sequence of property names"
  | shapelessObject => "object schema has no properties and no additional properties"
  | closedEmptyObject =>
      "object schema has no properties and forbids additional properties"
  | additionalPropertiesNotSchema =>
      "`additionalProperties` must be a boolean or a schema"
  | arrayWithoutItems => "array declared without an item type"
  | itemsNotSchema => "`items` must be a single schema"
  | enumNotSequence => "`enum` must be a sequence of values"
  | emptyEnum => "`enum` must not be empty"
  | enumValueNotScalar => "enum values must be scalar literals"
  | aliasCycle target =>
      "reference cycle through `" ++ target ++ "` never reaches a concrete schema"

inductive CompileError where
  | load (error : LoadError)
  | malformed (location : Location) (fault : Fault)
  | unresolvedReference (location : Location) (name : String)
  | nameCollision (location : Location) (name : String) (existing : Location)
  | duplicateValue (location : Location) (value : Literal)
  deriving DecidableEq

namespace CompileError

def kindName : CompileError → String
  | load _ => "ParseError"
  | malformed .. => "SchemaError"
  | unresolvedReference .. => "UnresolvedReferenceError"
  | nameCollision .. => "NameCollisionError"
  | duplicateValue .. => "DuplicateEnumValueError"

def location? : CompileError → Option Location
  | load error => error.location?
  | malformed location _ | unresolvedReference location _
  | nameCollision location _ _ | duplicateValue location _ => some location

def message : CompileError → String
  | load error => error.message
  | malformed location fault =>
      location.text ++ ": malformed schema: " ++ fault.message
  | unresolvedReference location name =>
      location.text ++ ": unresolved reference to `" ++ name ++ "`"
  | nameCollision location name existing =>
      location.text ++ ": type name `" ++ name ++
        "` is already assigned to the type declared at " ++ existing.text
  | duplicateValue location value =>
      location.text ++ ": enum value " ++ value.text ++
        " is declared more than once"

end CompileError

end Schemata
