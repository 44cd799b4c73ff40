import EntityQuery.Statement.Basic

/-!
# Recording statements

A builder whose values and conditions are those of plans. It puts the parts of a statement together
and keeps a log of the kinds of calls that it received, in which calls of one kind that follow each
other stand once.
-/

namespace EntityQuery

/-- A kind of call that adds to a statement. -/
inductive BuilderCall
  | addJoin
  | bindParameter
  | restrict
  | orderBy
  | setFirstResult
  | setMaxResults
  | select
deriving DecidableEq

/-- The name of a kind of call. -/
def BuilderCall.name : BuilderCall → String
  | addJoin => "add_join"
  | bindParameter => "bind_parameter"
  | restrict => "where_clause"
  | orderBy => "order_by"
  | setFirstResult => "set_first_result"
  | setMaxResults => "set_max_results"
  | select => "select"

/-- A statement in the making, with the calls that made it. -/
structure Recording where
  /-- The statement so far. -/
  statement : Statement
  /-- The kinds of calls so far. -/
  calls : List BuilderCall

namespace Recording

/-- A recording of no calls. -/
def start (root : String) (rootAlias? : Option String) : Recording :=
  ⟨.empty root rootAlias?, []⟩

/-- Adds a kind of call to the log, unless the last one was of that kind. -/
def log (calls : List BuilderCall) (call : BuilderCall) : List BuilderCall :=
  if calls.getLast? = some call then calls else calls ++ [call]

/-- A call that changes the statement. -/
def record (call : BuilderCall) (change : Statement → Statement) : StateM Recording Unit :=
  modify fun r => ⟨change r.statement, log r.calls call⟩

/-- The recording builder. -/
def builder : Builder (StateM Recording) Scalar Predicate where
  column alias? name := return .column alias? name
  parameter name := return .parameter name
  constant n := return .constant n
  function f args := return .function f args
  arithmetic op left right := return .arithmetic op left right
  negate operand := return .negate operand
  const b := return .const b
  and left right := return .and left right
  or left right := return .or left right
  not operand := return .not operand
  compare op left right := return .compare op left right
  like value pattern := return .like value pattern
  isNull operand := return .isNull operand
  isNotNull operand := return .isNotNull operand
  addJoin parent? property aliasName :=
    record .addJoin fun s => { s with joins := s.joins ++ [⟨parent?, property, aliasName⟩] }
  bindParameter name value :=
    record .bindParameter fun s => { s with parameters := s.parameters.insert name value }
  restrict p := record .restrict fun s => { s with condition? := some p }
  orderBy scalar direction :=
    record .orderBy fun s => { s with orderBy := s.orderBy ++ [⟨scalar, direction⟩] }
  setFirstResult n := record .setFirstResult fun s => { s with firstResult? := some n }
  setMaxResults n := record .setMaxResults fun s => { s with maxResults? := some n }
  select selection := record .select fun s => { s with selection }

end Recording

/-- The recording of a plan. -/
def QueryPlan.recording (plan : QueryPlan) : Recording :=
  (plan.apply Recording.builder (.start plan.root plan.rootAlias?)).2

/-- The statement of a plan. -/
def QueryPlan.statement (plan : QueryPlan) : Statement := plan.recording.statement

end EntityQuery
