import EntityQuery.Plan.QueryPlan

/-!
# Building statements

A plan does not know the store that it is run on. Applying it drives a builder, which has values
and conditions of its own and receives the parts of the plan one after the other: joins,
parameters, the condition, sort keys, paging, and last what is returned.
-/

namespace EntityQuery

/-- What a statement returns, over values of some kind. -/
inductive Selection (ε : Type)
  /-- Every column of the root. -/
  | all
  | columns (columns : List ε)
  /-- The root with what some aliases stand for. -/
  | entities (aliases : List String)

/-- Makes a statement, with values in `ε` and conditions in `π`. -/
structure Builder (m : Type → Type) (ε π : Type) where
  /-- A column, qualified by an alias or not. -/
  column : Option String → String → m ε
  /-- A parameter. -/
  parameter : String → m ε
  /-- An integer. -/
  constant : Int64 → m ε
  /-- A function of some values. -/
  function : Builtin → List ε → m ε
  /-- An arithmetic operation. -/
  arithmetic : ArithmeticOp → ε → ε → m ε
  /-- A negation. -/
  negate : ε → m ε
  /-- A constant condition. -/
  const : Bool → m π
  /-- Both conditions. -/
  and : π → π → m π
  /-- One of the conditions or both. -/
  or : π → π → m π
  /-- The opposite condition. -/
  not : π → m π
  /-- A comparison. -/
  compare : RelationalOp → ε → ε → m π
  /-- A pattern match. -/
  like : ε → ε → m π
  /-- There is no value. -/
  isNull : ε → m π
  /-- There is a value. -/
  isNotNull : ε → m π
  /-- Joins a property of what an alias stands for under an alias of its own. -/
  addJoin : Option String → String → String → m Unit
  /-- Binds a parameter. -/
  bindParameter : String → Value → m Unit
  /-- Sets the condition. -/
  restrict : π → m Unit
  /-- Adds a sort key. -/
  orderBy : ε → Direction → m Unit
  /-- Sets the number of results to leave out. -/
  setFirstResult : Nat → m Unit
  /-- Sets the greatest number of results. -/
  setMaxResults : Nat → m Unit
  /-- Sets what is returned. -/
  select : Selection ε → m Unit

variable {m : Type → Type} [Monad m] {ε π : Type}

namespace Scalar

/-- Makes a value with a builder. -/
def build (b : Builder m ε π) : Scalar → m ε
  | column alias? name => b.column alias? name
  | parameter name => b.parameter name
  | constant n => b.constant n
  | function f args => do
    let args ← buildAll args
    b.function f args
  | arithmetic op left right => do
    let left ← left.build b
    let right ← right.build b
    b.arithmetic op left right
  | negate operand => do
    let operand ← operand.build b
    b.negate operand
where
  /-- Makes some values from left to right. -/
  buildAll : List Scalar → m (List ε)
    | [] => return []
    | s :: ss => do
      let first ← s.build b
      let rest ← buildAll ss
      return first :: rest

end Scalar

namespace Predicate

/-- Makes a condition with a builder. -/
def build (b : Builder m ε π) : Predicate → m π
  | const value => b.const value
  | and left right => do
    let left ← left.build b
    let right ← right.build b
    b.and left right
  | or left right => do
    let left ← left.build b
    let right ← right.build b
    b.or left right
  | not operand => do
    let operand ← operand.build b
    b.not operand
  | compare op left right => do
    let left ← left.build b
    let right ← right.build b
    b.compare op left right
  | like value pattern => do
    let value ← value.build b
    let pattern ← pattern.build b
    b.like value pattern
  | isNull operand => do
    let operand ← operand.build b
    b.isNull operand
  | isNotNull operand => do
    let operand ← operand.build b
    b.isNotNull operand

end Predicate

/-- Makes what a plan returns. -/
def Projection.build (b : Builder m ε π) : Projection → m (Selection ε)
  | all => return .all
  | columns scalars => do
    let selected ← Scalar.build.buildAll b scalars
    return .columns selected
  | expand items => return .entities (items.map (·.aliasName))

/-- Makes the statement of a plan. -/
def QueryPlan.apply (b : Builder m ε π) (plan : QueryPlan) : m Unit := do
  plan.joins.steps.forM fun step => b.addJoin step.parent? step.property step.aliasName
  plan.parameters.entries.forM fun (name, value) => b.bindParameter name value
  plan.predicate?.forM fun p => do
    let condition ← p.build b
    b.restrict condition
  plan.orderBy.forM fun key => do
    let scalar ← key.scalar.build b
    b.orderBy scalar key.direction
  plan.firstResult?.forM b.setFirstResult
  plan.maxResults?.forM b.setMaxResults
  let selection ← plan.projection.build b
  b.select selection

end EntityQuery
