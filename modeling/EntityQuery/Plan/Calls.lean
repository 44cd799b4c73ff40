import EntityQuery.Plan.Fragment

/-!
# Compilation of calls

Most functions become functions of the query. The three tests on parts of a text become pattern
matches, with wildcards put around a literal. The four functions whose result is only good for a
comparison wait for it: a position is compared with `k` by comparing the first `k + 1` characters of
the text that is searched with the text that is looked for, and the three comparisons with zero by
comparing their arguments.
-/

namespace EntityQuery

/-- The pattern of a test for a literal text. -/
def Builtin.pattern (f : Builtin) (needle : String) : String :=
  match f with
  | .startsWith => needle ++ "%"
  | .endsWith => "%" ++ needle
  | _ => "%" ++ needle ++ "%"

/-- What a test looks in and what it looks for; only `substringof` names the second one first. -/
def Builtin.haystackFirst {α : Type} (f : Builtin) (a b : α) : α × α :=
  match f with
  | .substringOf => (b, a)
  | _ => (a, b)

/-- The pattern that a test matches with. Only a literal text gets wildcards. -/
def Fragment.toPattern (c : Config) (f : Builtin) : Fragment → Binding.Run Scalar
  | .literal (.string text) ty => Binding.bind c (.string (f.pattern text)) ty
  | other => other.toScalar c

/-- What an argument of a comparison function stands for: where points in time are compared, a
text literal is one. -/
def Builtin.operand (f : Builtin) (arg : Fragment) : Fragment :=
  match f with
  | .dateTimeCompare => arg.asInstant
  | _ => arg

/-- Compiles a call. -/
def Builtin.compile (c : Config) (f : Builtin) (args : List Fragment) :
    Binding.Run Compiled := do
  if f.arity.accepts args.length then
    match f.kind, args with
    | .directValue, args =>
      let scalars ← Fragment.toScalars c args
      return .complete (.value (.function f scalars) (f.returnType (args.head?.map Fragment.ty)))
    | .patternMatch, [a, b] =>
      let (haystack, needle) := f.haystackFirst a b
      let value ← haystack.toScalar c
      let pattern ← needle.toPattern c f
      return .complete (.predicate (.like value pattern))
    | .opaqueComparison, [left, right] =>
      let left ← (f.operand left).toScalar c
      let right ← (f.operand right).toScalar c
      return .pending (.comparison f left right)
    | .indexOf, [haystack, needle] =>
      let haystack ← haystack.toScalar c
      let needle ← needle.toScalar c
      return .pending (.indexOf haystack needle)
    | _, _ => throw (.arityMismatch f args.length)
  else throw (.arityMismatch f args.length)

namespace Pending

/-- The condition that the first characters of a text, up to a position and one more, are
another text. -/
def found (haystack needle position : Scalar) : Predicate :=
  .compare .eq
    (.function .substring [haystack, .constant 0, .arithmetic .add position (.constant 1)]) needle

/-- Compiles the comparison of a waiting call with a threshold. Only points in time have an
order. -/
def resolve (c : Config) (p : Pending) (op : RelationalOp) (threshold : Fragment) :
    Binding.Run Predicate := do
  match p with
  | indexOf haystack needle =>
    if op.isEquality then
      let position ← threshold.toScalar c
      return (found haystack needle position).keepIf (op == .eq)
    else throw (.unsupported op.keyword Builtin.indexOf.name)
  | comparison f left right =>
    if op.isEquality || f == .dateTimeCompare then
      if threshold.isZero then
        if op == .ne then return .not (.compare .eq left right)
        else return .compare op left right
      else throw (.unsupported op.keyword (f.name ++ " compared with " ++ threshold.describe))
    else throw (.unsupported op.keyword f.name)

end Pending

end EntityQuery
