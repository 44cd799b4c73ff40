import EntityQuery.Expr.Operator
import EntityQuery.Model.Builtin

/-!
# Predicates over joins and parameters

What filters and sort keys are compiled to. A column is qualified by the alias of the join that
reaches it, and every literal has become a parameter. The texts write operators and functions
alike, as a name with its arguments in parentheses, a parameter with a colon before it, and a
column with its alias before a dot.
-/

namespace EntityQuery

/-- A value that a query computes. -/
inductive Scalar
  /-- A column, qualified unless it belongs to a root without alias. -/
  | column (alias? : Option String) (name : String)
  | parameter (name : String)
  /-- An integer that stands for no literal. -/
  | constant (n : Int64)
  | function (f : Builtin) (args : List Scalar)
  | arithmetic (op : ArithmeticOp) (left right : Scalar)
  | negate (operand : Scalar)

/-- A condition of a query. -/
inductive Predicate
  | const (b : Bool)
  | and (left right : Predicate)
  | or (left right : Predicate)
  | not (operand : Predicate)
  | compare (op : RelationalOp) (left right : Scalar)
  /-- A pattern match; the pattern has its wildcards. -/
  | like (value pattern : Scalar)
  | isNull (operand : Scalar)
  | isNotNull (operand : Scalar)

/-- A key to sort by. -/
structure SortKey where
  /-- What is sorted by. -/
  scalar : Scalar
  /-- In which direction. -/
  direction : Direction

namespace Scalar

/-- The text of a value. -/
def text : Scalar → String
  | column (some aliasName) name => aliasName ++ "." ++ name
  | column none name => name
  | parameter name => ":" ++ name
  | constant n => toString n.toInt
  | function f args => f.name ++ "(" ++ String.intercalate ", " (texts args) ++ ")"
  | arithmetic op left right => op.keyword ++ "(" ++ left.text ++ ", " ++ right.text ++ ")"
  | negate operand => "negate(" ++ operand.text ++ ")"
where
  /-- The texts of some values. -/
  texts : List Scalar → List String
    | [] => []
    | s :: ss => s.text :: texts ss

/-- The names of the parameters that a value refers to, from left to right. -/
def parameters : Scalar → List String
  | column _ _ | constant _ => []
  | parameter name => [name]
  | function _ args => parametersOfAll args
  | arithmetic _ left right => left.parameters ++ right.parameters
  | negate operand => operand.parameters
where
  /-- The names of the parameters that some values refer to. -/
  parametersOfAll : List Scalar → List String
    | [] => []
    | s :: ss => s.parameters ++ parametersOfAll ss

end Scalar

namespace Predicate

/-- The text of a condition. -/
def text : Predicate → String
  | const b => if b then "true" else "false"
  | and left right => "and(" ++ left.text ++ ", " ++ right.text ++ ")"
  | or left right => "or(" ++ left.text ++ ", " ++ right.text ++ ")"
  | not operand => "not(" ++ operand.text ++ ")"
  | compare op left right => op.keyword ++ "(" ++ left.text ++ ", " ++ right.text ++ ")"
  | like value pattern => "like(" ++ value.text ++ ", " ++ pattern.text ++ ")"
  | isNull operand => "isNull(" ++ operand.text ++ ")"
  | isNotNull operand => "isNotNull(" ++ operand.text ++ ")"

/-- The names of the parameters that a condition refers to, from left to right. -/
def parameters : Predicate → List String
  | const _ => []
  | and left right | or left right => left.parameters ++ right.parameters
  | not operand => operand.parameters
  | compare _ left right => left.parameters ++ right.parameters
  | like value pattern => value.parameters ++ pattern.parameters
  | isNull operand | isNotNull operand => operand.parameters

/-- A condition or its negation. -/
def keepIf (p : Predicate) (keep : Bool) : Predicate := if keep then p else not p

end Predicate

end EntityQuery
