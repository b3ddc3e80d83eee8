namespace Schemata

/-! Choices that all target languages share. -/

inductive EnumStyle where
  | literalUnion
  | namedEnum
  deriving DecidableEq

/-- How a nullable field is written: as an optional one or with a type that
includes null. -/
inductive NullStyle where
  | optionalField
  | unionWithNull
  deriving DecidableEq

structure EmitOptions where
  enumStyle : EnumStyle
  nullStyle : NullStyle
  deriving DecidableEq

def EmitOptions.standard : EmitOptions where
  enumStyle := .literalUnion
  nullStyle := .optionalField

end Schemata
