import EntityQuery.Model.EdmType
import EntityQuery.Model.Guid
import EntityQuery.Number.Shortest
import EntityQuery.Text.Quoted
import EntityQuery.Time.Instant

/-!
# Literal values

The values that expressions carry as constants and parameters are bound to. Text whose type asks
for something else, such as a date-time written as text, stays text until it is bound.
-/

namespace EntityQuery

/-- A literal value. -/
inductive Value
  | null
  | bool (b : Bool)
  | int32 (n : Int32)
  | int64 (n : Int64)
  | float64 (x : Binary64)
  /-- A number of fixed precision, kept as it was written. -/
  | decimal (text : String)
  | string (text : String)
  | bytes (bytes : List UInt8)
  | dateTime (t : Instant)
  | guid (g : Guid)
deriving DecidableEq

namespace Value

/-- A value is null when it is the null value. -/
def isNull : Value → Bool
  | null => true
  | _ => false

/-- The truth value of a Boolean. -/
def bool? : Value → Option Bool
  | bool b => some b
  | _ => none

/-- An integer of either width. -/
def int64? : Value → Option Int64
  | int64 n => some n
  | int32 n => some n.toInt64
  | _ => none

/-- A number as the closest double-precision one. A decimal is not read. -/
def float64? : Value → Option Binary64
  | float64 x => some x
  | int32 n => some (Binary64.ofInt n.toInt)
  | int64 n => some (Binary64.ofInt n.toInt)
  | _ => none

/-- The text of a text value. -/
def string? : Value → Option String
  | string s => some s
  | _ => none

/-- The instant of a point in time. -/
def dateTime? : Value → Option Instant
  | dateTime t => some t
  | _ => none

/-- The type that a value has by itself. -/
def edmType : Value → EdmType
  | null => .null
  | bool _ => .boolean
  | int32 _ => .int32
  | int64 _ => .int64
  | float64 _ => .double
  | decimal _ => .decimal
  | string _ => .string
  | bytes _ => .binary
  | dateTime _ => .dateTime
  | guid _ => .guid

/-- How a value is shown: text in double quotes, bytes as upper-case digits between `X'` and a
quote, and points in time in UTC. -/
def text : Value → String
  | null => "null"
  | bool b => if b then "true" else "false"
  | int32 n => toString n.toInt
  | int64 n => toString n.toInt
  | float64 x => String.ofList x.positional
  | decimal s => s
  | string s => String.ofList (Text.quoted s.toList)
  | bytes bs => "X'" ++ String.ofList (Text.upperHex bs) ++ "'"
  | dateTime t => String.ofList t.text
  | guid g => String.ofList g.text

end Value

end EntityQuery
