import EntityQuery.Model.Value
import EntityQuery.Plan.Config
import EntityQuery.Plan.Error
import EntityQuery.Plan.FreeName
import EntityQuery.Plan.Predicate
import EntityQuery.Time.Reader

/-!
# Parameters

Literals never stand in a predicate: each one is brought into the form that its declared type asks
for and bound to a parameter with a name of its own. Names count up from zero and pass over those
that are reserved or bound already.
-/

namespace EntityQuery

/-- Parameters with their values, in the order in which they were bound. -/
structure Parameters where
  /-- The names and values. -/
  entries : List (String × Value)
deriving DecidableEq

namespace Parameters

/-- No parameters. -/
def empty : Parameters := ⟨[]⟩

/-- The names. -/
def names (ps : Parameters) : List String := ps.entries.map (·.1)

/-- The value of a name. -/
def get? (ps : Parameters) (name : String) : Option Value :=
  (ps.entries.find? (·.1 == name)).map (·.2)

/-- Whether a name is bound. -/
def contains (ps : Parameters) (name : String) : Bool := ps.entries.any (·.1 == name)

/-- The number of parameters. -/
def size (ps : Parameters) : Nat := ps.entries.length

/-- Whether there are none. -/
def isEmpty (ps : Parameters) : Bool := ps.entries.isEmpty

/-- Binds a name last or, if it is bound, gives it another value in its place. -/
def insert (ps : Parameters) (name : String) (value : Value) : Parameters :=
  if ps.contains name then
    ⟨ps.entries.map fun entry => if entry.1 == name then (entry.1, value) else entry⟩
  else ⟨ps.entries ++ [(name, value)]⟩

end Parameters

/-- A text as a value of a declared type: points in time are read, and the bytes of binary data
and of identifiers are decoded. -/
def Value.ofText (text : String) (declared : EdmType) : Option Value :=
  match declared with
  | .dateTime | .dateTimeOffset => (Instant.ofText? text.toList).map .dateTime
  | .guid => (Guid.ofText? text.toList).map .guid
  | .binary => (Text.decodeHex text.toList).map .bytes
  | _ => some (.string text)

/-- A value in the form that a declared type asks for. What is no text has it already. -/
def Value.normalize (value : Value) (declared : EdmType) : Except PlanError Value :=
  match value with
  | .string text =>
    match Value.ofText text declared with
    | some v => .ok v
    | none => .error (.invalidLiteral declared text)
  | other => .ok other

/-- Parameters and the number that the search for the next name begins with. -/
structure Binding where
  /-- The next number to try. -/
  counter : Nat
  /-- The parameters bound so far. -/
  parameters : Parameters
deriving DecidableEq

/-- A computation that binds parameters. What is bound stays bound when it fails. -/
abbrev Binding.Run := EStateM PlanError Binding

namespace Binding

/-- Goes on from parameters that are bound already, with a search from zero. -/
def resume (ps : Parameters) : Binding := ⟨0, ps⟩

/-- No parameters. -/
def start : Binding := resume .empty

/-- The candidate of a number. -/
def name (c : Config) (n : Nat) : String := c.parameterPrefix ++ toString n

/-- Whether a name cannot be given. -/
def isTaken (c : Config) (ps : Parameters) (name : String) : Bool :=
  c.reservedParameters.contains name || ps.contains name

/-- The number of the next name. -/
def nextNumber (c : Config) (b : Binding) : Nat :=
  firstFree (isTaken c b.parameters) (name c) (c.reservedParameters.length + b.parameters.size)
    b.counter

/-- The binding with one more parameter. -/
def push (c : Config) (b : Binding) (value : Value) : Binding :=
  let n := b.nextNumber c
  ⟨n + 1, b.parameters.insert (name c n) value⟩

/-- Binds a value to a fresh name. -/
def bindValue (c : Config) (value : Value) : Run Scalar := do
  let b ← get
  set (b.push c value)
  return .parameter (name c (b.nextNumber c))

/-- Binds a value in the form that a declared type asks for. A literal that has no such form
takes no name. -/
def bind (c : Config) (value : Value) (declared : EdmType) : Run Scalar := do
  match value.normalize declared with
  | .ok value => bindValue c value
  | .error e => throw e

end Binding

end EntityQuery
