/-!
# Primitive types of the entity data model

The types that a column can declare and an expression can have, with the classes that decide which
operators apply.
-/

namespace EntityQuery

/-- A primitive type of the entity data model. -/
inductive EdmType
  | boolean
  | byte
  | int16
  | int32
  | int64
  | single
  | double
  | decimal
  | string
  | dateTime
  | dateTimeOffset
  | time
  | guid
  | binary
  /-- The type of the literal `null`. -/
  | null
deriving DecidableEq

namespace EdmType

/-- Every type, in the order of declaration. -/
def all : List EdmType :=
  [boolean, byte, int16, int32, int64, single, double, decimal, string, dateTime, dateTimeOffset,
    time, guid, binary, null]

/-- The name of a type in documents. -/
def tag : EdmType → String
  | boolean => "Boolean"
  | byte => "Byte"
  | int16 => "Int16"
  | int32 => "Int32"
  | int64 => "Int64"
  | single => "Single"
  | double => "Double"
  | decimal => "Decimal"
  | string => "String"
  | dateTime => "DateTime"
  | dateTimeOffset => "DateTimeOffset"
  | time => "Time"
  | guid => "Guid"
  | binary => "Binary"
  | null => "Null"

/-- The type with a name in documents. -/
def ofTag? (tag : String) : Option EdmType := all.find? (·.tag == tag)

/-- The name of a type in messages: qualified, except for the type of `null`. -/
def name : EdmType → String
  | null => "null"
  | ty => "Edm." ++ ty.tag

/-- A type is integral when its values are whole numbers. -/
def isIntegral : EdmType → Bool
  | byte | int16 | int32 | int64 => true
  | _ => false

/-- A type is numeric when its values are numbers. -/
def isNumeric : EdmType → Bool
  | single | double | decimal => true
  | ty => ty.isIntegral

/-- A type is temporal when its values are points in time. -/
def isTemporal : EdmType → Bool
  | dateTime | dateTimeOffset => true
  | _ => false

/-- A type supports equality only when its values have no order. -/
def isEqualityOnly : EdmType → Bool
  | guid | binary | null => true
  | _ => false

theorem mem_all (ty : EdmType) : ty ∈ all := by cases ty <;> decide

/-- A type is found under its name. -/
theorem ofTag?_tag (ty : EdmType) : ofTag? ty.tag = some ty := by cases ty <;> rfl

end EdmType

end EntityQuery
