import EntityQuery.Plan.Parameters

/-!
# Fragments

What a part of an expression is compiled to before it is known how it is used. A fragment becomes
a scalar where a value is asked for and a predicate where a condition is. A literal stays unbound
until then, so it is bound once and may still be changed. A call whose meaning depends on the
comparison around it has neither form.
-/

namespace EntityQuery

/-- What a part of an expression is compiled to. -/
inductive Fragment
  | predicate (p : Predicate)
  | value (scalar : Scalar) (ty : EdmType)
  /-- A literal that is not bound yet. -/
  | literal (value : Value) (ty : EdmType)
  /-- A call that only the comparison around it can compile. -/
  | deferred (f : Builtin)

namespace Fragment

/-- Whether a fragment is the literal `null`. -/
def isNull : Fragment → Bool
  | literal .null _ => true
  | _ => false

/-- The truth value of a Boolean literal. -/
def bool? : Fragment → Option Bool
  | literal (.bool b) _ => some b
  | _ => none

/-- Whether a fragment is the literal zero. -/
def isZero : Fragment → Bool
  | literal (.int32 n) _ => n == 0
  | literal (.int64 n) _ => n == 0
  | _ => false

/-- The type of a fragment. -/
def ty : Fragment → EdmType
  | predicate _ => .boolean
  | value _ ty => ty
  | literal _ ty => ty
  | deferred _ => .int32

/-- How messages name a fragment. -/
def describe : Fragment → String
  | predicate _ => "a boolean predicate"
  | value _ ty => "a value of type " ++ ty.name
  | literal v _ => "the literal " ++ v.text
  | deferred f => f.name ++ "() outside the left side of a comparison"

/-- The scalar of a fragment; a literal is bound. -/
def toScalar (c : Config) : Fragment → Binding.Run Scalar
  | value scalar _ => return scalar
  | literal v ty => Binding.bind c v ty
  | predicate p => throw (.unsupported "value" ("the predicate " ++ p.text))
  | deferred f => throw (.unsupported "value" (deferred f).describe)

/-- The scalars of some fragments, from left to right. -/
def toScalars (c : Config) : List Fragment → Binding.Run (List Scalar)
  | [] => return []
  | f :: fs => do
    let scalar ← f.toScalar c
    let scalars ← toScalars c fs
    return scalar :: scalars

/-- The predicate of a fragment: a Boolean literal is constant, and a Boolean value is compared
with a bound `true`. -/
def toPredicate (c : Config) : Fragment → Binding.Run Predicate
  | predicate p => return p
  | literal (.bool b) _ => return .const b
  | value scalar .boolean => do
    let truth ← Binding.bindValue c (.bool true)
    return .compare .eq scalar truth
  | other => throw (.unsupported "logical" other.describe)

/-- A text literal under the type of points in time; anything else is kept. -/
def asInstant : Fragment → Fragment
  | literal (.string text) _ => literal (.string text) .dateTime
  | other => other

end Fragment

/-- The arguments of a call that waits for the comparison around it. -/
inductive Pending
  /-- A position in a text. -/
  | indexOf (haystack needle : Scalar)
  /-- A comparison whose result is compared with zero. -/
  | comparison (f : Builtin) (left right : Scalar)

/-- The function of a waiting call. -/
def Pending.function : Pending → Builtin
  | indexOf _ _ => .indexOf
  | comparison f _ _ => f

/-- What an expression is compiled to. -/
inductive Compiled
  /-- A fragment that stands for itself. -/
  | complete (f : Fragment)
  /-- A call that waits for the comparison around it. -/
  | pending (p : Pending)

/-- What is left of a compiled expression where no comparison is around it. -/
def Compiled.fragment : Compiled → Fragment
  | complete f => f
  | pending p => .deferred p.function

end EntityQuery
