import EntityQuery.Json.Basic

/-!
# Decoding JSON

Decoders from JSON values to the types of the library. A record is an object, whose unknown keys
are ignored and whose known keys may not be repeated, or the array of its fields in order. A choice
without content is the text of its name, or an object that holds the name with `null`. Every
failure is the same: the value does not have the expected form.
-/

namespace EntityQuery.Json

/-- Takes a JSON value to a value of a type, if it has the form. -/
abbrev Decoder (α : Type) := Json → Option α

/-- A text. -/
def asString : Decoder String
  | string s => some s
  | _ => none

/-- A Boolean. -/
def asBool : Decoder Bool
  | bool b => some b
  | _ => none

/-- A whole number within bounds. -/
def asIntIn (least most : Int) : Decoder Int
  | int n => if least ≤ n ∧ n ≤ most then some n else none
  | _ => none

/-- A natural number of 64 bits. -/
def asNat64 : Decoder Nat := fun json => (asIntIn 0 (UInt64.size - 1) json).map Int.toNat

/-- An integer of 32 bits. -/
def asInt32 : Decoder Int32 := fun json =>
  (asIntIn Int32.minValue.toInt Int32.maxValue.toInt json).map Int32.ofInt

/-- An integer of 64 bits. -/
def asInt64 : Decoder Int64 := fun json =>
  (asIntIn Int64.minValue.toInt Int64.maxValue.toInt json).map Int64.ofInt

/-- A byte. -/
def asByte : Decoder UInt8 := fun json => (asIntIn 0 255 json).map fun n => n.toNat.toUInt8

/-- A number of double precision; a whole one is rounded. -/
def asFloat : Decoder Binary64
  | int n => some (Binary64.ofInt n)
  | float x => some x
  | _ => none

/-- A list. -/
def asList {α : Type} (decode : Decoder α) : Decoder (List α)
  | array items => items.mapM decode
  | _ => none

/-- An optional value: `null` when there is none. -/
def asOption {α : Type} (decode : Decoder α) : Decoder (Option α)
  | null => some none
  | json => (decode json).map some

/-- The name of a choice without content. -/
def asName : Decoder String
  | string s => some s
  | object [(name, null)] => some name
  | _ => none

/-- The values of the fields of a record, each present or not. -/
def asRecord (keys : List String) : Decoder (List (Option Json))
  | object members =>
    keys.mapM fun key =>
      match members.filter fun m => m.1 == key with
      | [] => some none
      | [(_, v)] => some (some v)
      | _ => none
  | array items =>
    if items.length ≤ keys.length then
      some (items.map some ++ List.replicate (keys.length - items.length) none)
    else none
  | _ => none

/-- A value of several forms that names its form in a field: the name and the other fields. As an
array it begins with the name. -/
def asTagged (key : String) : Decoder (String × Json)
  | object members =>
    match members.filter fun m => m.1 == key with
    | [(_, string tag)] => some (tag, object (members.filter fun m => m.1 != key))
    | _ => none
  | array (string tag :: items) => some (tag, array items)
  | _ => none

/-- A value of several forms that names its form in one field and holds its content in another:
the name and the content, if there is one. As an array it has just these two items. -/
def asTaggedContent (key content : String) : Decoder (String × Option Json)
  | object members =>
    match members.filter fun m => m.1 == key, members.filter fun m => m.1 == content with
    | [(_, tag)], [] => (asString tag).map (·, none)
    | [(_, tag)], [(_, value)] => (asString tag).map (·, some value)
    | _, _ => none
  | array [tag, value] => (asString tag).map (·, some value)
  | _ => none

/-- A field that must be present. -/
def required {α : Type} (decode : Decoder α) (field : Option Json) : Option α := field.bind decode

/-- A field that has a default. -/
def withDefault {α : Type} (default : α) (decode : Decoder α) : Option Json → Option α
  | none => some default
  | some json => decode json

end EntityQuery.Json
