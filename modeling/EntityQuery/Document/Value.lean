import EntityQuery.Json.Decode
import EntityQuery.Model.Value
import EntityQuery.Time.Reader

/-!
# Documents of literal values

A value is an object with its kind under `type` and its content under `value`; the null value has
no content, and `null` is accepted as one. Bytes are lists of numbers, points in time are texts.
-/

namespace EntityQuery

/-- A type by its name. -/
def EdmType.toJson (ty : EdmType) : Json := .string ty.tag

/-- The type that a document names. -/
def EdmType.ofJson? : Json.Decoder EdmType := fun json => (Json.asName json).bind EdmType.ofTag?

/-- Bytes as a list of numbers. -/
def bytesToJson (bytes : List UInt8) : Json := Json.ofList (fun b => .int b.toNat) bytes

namespace Value

/-- An object of a kind and its content. -/
private def tagged (kind : String) (content : Json) : Json :=
  .object [("type", .string kind), ("value", content)]

/-- The document of a value. -/
def toJson : Value → Json
  | null => .object [("type", .string "Null")]
  | bool b => tagged "Bool" (.bool b)
  | int32 n => tagged "Int32" (.int n.toInt)
  | int64 n => tagged "Int64" (.int n.toInt)
  | float64 x => tagged "Float64" (.float x)
  | decimal s => tagged "Decimal" (.string s)
  | string s => tagged "String" (.string s)
  | bytes bs => tagged "Bytes" (bytesToJson bs)
  | dateTime t => tagged "DateTime" (.string (String.ofList t.text))
  | guid g => tagged "Guid" (bytesToJson g.bytes)

/-- The value of a kind that some content stands for. -/
def ofContent? (kind : String) (content? : Option Json) : Option Value :=
  match kind, content? with
  | "Null", none => some null
  | "Null", some .null => some null
  | "Bool", some json => (Json.asBool json).map bool
  | "Int32", some json => (Json.asInt32 json).map int32
  | "Int64", some json => (Json.asInt64 json).map int64
  | "Float64", some json => (Json.asFloat json).map float64
  | "Decimal", some json => (Json.asString json).map decimal
  | "String", some json => (Json.asString json).map string
  | "Bytes", some json => (Json.asList Json.asByte json).map bytes
  | "DateTime", some json =>
    ((Json.asString json).bind fun s => Instant.ofLenientText? s.toList).map dateTime
  | "Guid", some json => ((Json.asList Json.asByte json).bind Guid.ofBytes?).map guid
  | _, _ => none

/-- The value that a document holds. -/
def ofJson? : Json.Decoder Value := fun json =>
  (Json.asTaggedContent "type" "value" json).bind fun (kind, content?) => ofContent? kind content?

end Value

end EntityQuery
