import EntityQuery.Expr.Options
import EntityQuery.Plan.Joins
import EntityQuery.Plan.Calls

/-!
# Compilation of expressions

A session gathers joins and parameters over all expressions of a query, so that they share joins
and never share a parameter. Compiling an expression adds what it needs; when it fails, what was
added before the failure stays. An expression is compiled at a depth, and one that stands as deep
as the settings allow is refused before anything in it is looked at.
-/

namespace EntityQuery

/-- The joins and parameters gathered so far. -/
structure Session where
  /-- The joins. -/
  joins : JoinPlan
  /-- The parameters. -/
  binding : Binding
deriving DecidableEq

/-- A computation that adds joins and parameters. What was added stays when it fails. -/
abbrev Session.Run := EStateM PlanError Session

namespace Session

/-- Goes on from joins and parameters that are there already. -/
def resume (joins : JoinPlan) (ps : Parameters) : Session := ⟨joins, .resume ps⟩

/-- Nothing gathered. -/
def start : Session := resume .empty .empty

/-- The parameters of a session. -/
def parameters (s : Session) : Parameters := s.binding.parameters

/-- Runs a computation on the joins. -/
def onJoins {α : Type} (run : JoinPlan.Run α) : Run α := fun s =>
  match run s.joins with
  | .ok a joins => .ok a { s with joins }
  | .error e joins => .error e { s with joins }

/-- Runs a computation on the parameters. -/
def onBinding {α : Type} (run : Binding.Run α) : Run α := fun s =>
  match run s.binding with
  | .ok a binding => .ok a { s with binding }
  | .error e binding => .error e { s with binding }

end Session

namespace Scope

open Session

/-- The test of an operand against the literal `null`. -/
def nullTest (c : Config) (op : RelationalOp) (operand : Fragment) : Binding.Run Predicate := do
  if op.isEquality then
    let scalar ← operand.toScalar c
    if op == .eq then return .isNull scalar else return .isNotNull scalar
  else throw (.nullNotComparable op)

/-- The comparison of a predicate with another operand, which has to be a Boolean literal. -/
def compareWithBool (op : RelationalOp) (p : Predicate) (operand : Fragment) :
    Binding.Run Predicate :=
  match operand.bool?, op with
  | some b, .eq => return p.keepIf b
  | some b, .ne => return p.keepIf (!b)
  | _, _ =>
    throw (.unsupported op.keyword ("the predicate " ++ p.text ++ " and " ++ operand.describe))

/-- Refuses an order on an operand whose type has none. -/
def checkOrder (op : RelationalOp) (operand : Fragment) : Binding.Run Unit :=
  if !op.isEquality && operand.ty.isEqualityOnly then
    throw (.unsupported op.keyword operand.describe)
  else return ()

/-- The comparison of two operands that are no predicates. -/
def compareValues (c : Config) (op : RelationalOp) (left right : Fragment) :
    Binding.Run Predicate := do
  match left.isNull, right.isNull with
  | true, true =>
    if op.isEquality then return .const (op == .eq) else throw (.nullNotComparable op)
  | true, false => nullTest c op right
  | false, true => nullTest c op left
  | false, false =>
    checkOrder op left
    checkOrder op right
    let left ← left.toScalar c
    let right ← right.toScalar c
    return .compare op left right

/-- The comparison of two operands of which the right one does not wait for a comparison. A
predicate may stand on either side of a literal. -/
def compareFragments (c : Config) (op : RelationalOp) (left right : Fragment) :
    Binding.Run Predicate :=
  match left, right with
  | .predicate p, operand => compareWithBool op p operand
  | .literal value ty, .predicate p => compareWithBool op p (.literal value ty)
  | left, right => compareValues c op left right

/-- The comparison of two compiled operands. A call on the left that waits for a comparison gets
this one; one on the right has nothing to wait for. -/
def compare (c : Config) (op : RelationalOp) (left : Compiled) (right : Fragment) :
    Binding.Run Predicate :=
  match left, right with
  | .pending p, right => p.resolve c op right
  | .complete _, .deferred f => throw (.unsupported op.keyword (Fragment.deferred f).describe)
  | .complete left, right => compareFragments c op left right

/-- The predicate of two conditions. -/
def connective : LogicalOp → Predicate → Predicate → Predicate
  | .and => .and
  | .or => .or

/-- Compiles an expression at a depth. -/
def visit (s : Scope) (depth : Nat) (e : Expr) : Session.Run Compiled :=
  if s.config.maxDepth ≤ depth then throw (.tooDeep s.config.maxDepth)
  else
    match e with
    | .constant value ty => return .complete (.literal value ty)
    | .property path ty => do
      let column ← onJoins (s.resolveProperty path)
      return .complete (.value column ty)
    | .call f args => do
      let args ← visitAll (depth + 1) args
      onBinding (f.compile s.config args)
    | .unary .negate operand => do
      let operand ← s.visit (depth + 1) operand
      let scalar ← onBinding (operand.fragment.toScalar s.config)
      return .complete (.value (.negate scalar) operand.fragment.ty)
    | .unary .not operand => do
      let operand ← s.visit (depth + 1) operand
      let p ← onBinding (operand.fragment.toPredicate s.config)
      return .complete (.predicate (.not p))
    | .arithmetic op left right => do
      let left ← s.visit (depth + 1) left
      let right ← s.visit (depth + 1) right
      let ty := if left.fragment.ty = .null then right.fragment.ty else left.fragment.ty
      let left ← onBinding (left.fragment.toScalar s.config)
      let right ← onBinding (right.fragment.toScalar s.config)
      return .complete (.value (.arithmetic op left right) ty)
    | .logical op left right => do
      let left ← s.visit (depth + 1) left
      let left ← onBinding (left.fragment.toPredicate s.config)
      let right ← s.visit (depth + 1) right
      let right ← onBinding (right.fragment.toPredicate s.config)
      return .complete (.predicate (connective op left right))
    | .relational op left right => do
      let left ← s.visit (depth + 1) left
      let right ← s.visit (depth + 1) right
      let p ← onBinding (compare s.config op left right.fragment)
      return .complete (.predicate p)
where
  /-- Compiles the arguments of a call from left to right. -/
  visitAll (depth : Nat) : List Expr → Session.Run (List Fragment)
    | [] => return []
    | e :: es => do
      let compiled ← s.visit depth e
      let fragments ← visitAll depth es
      return compiled.fragment :: fragments

/-- Compiles a condition. -/
def condition (s : Scope) (e : Expr) : Session.Run Predicate := do
  let compiled ← s.visit 0 e
  onBinding (compiled.fragment.toPredicate s.config)

/-- Compiles a value. -/
def value (s : Scope) (e : Expr) : Session.Run Scalar := do
  let compiled ← s.visit 0 e
  onBinding (compiled.fragment.toScalar s.config)

/-- Compiles a sort key. -/
def sortKey (s : Scope) (key : OrderKey) : Session.Run SortKey := do
  let scalar ← s.value key.expr
  return ⟨scalar, key.direction⟩

/-- Compiles sort keys from left to right. -/
def sortKeys (s : Scope) : List OrderKey → Session.Run (List SortKey)
  | [] => return []
  | key :: keys => do
    let first ← s.sortKey key
    let rest ← s.sortKeys keys
    return first :: rest

end Scope

/-- A compiled condition with the joins and parameters that it needs. -/
structure CompiledFilter where
  /-- The condition. -/
  predicate : Predicate
  /-- The joins. -/
  joins : JoinPlan
  /-- The parameters. -/
  parameters : Parameters

/-- Compiles a condition on its own, for a root entity type that is known. -/
def Scope.compileFilter (s : Scope) (e : Expr) : Except PlanError CompiledFilter :=
  if s.metadata.hasEntity s.root then
    match s.condition e .start with
    | .ok p session => .ok ⟨p, session.joins, session.parameters⟩
    | .error e _ => .error e
  else .error (.unknownEntity s.root)

end EntityQuery
