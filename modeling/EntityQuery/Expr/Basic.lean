import EntityQuery.Expr.Operator
import EntityQuery.Model.Builtin
import EntityQuery.Model.Value

/-!
# Typed expressions

The trees that filters and sort keys are typed to: operators and functions are known, property
paths are split into segments and carry the type of their last one, and literals carry their
declared type. `Expr.ty` and `Expr.depth` read the static type and the nesting depth off a tree,
and `Expr.text` writes it in the notation of filters.
-/

namespace EntityQuery

/-- A typed expression. -/
inductive Expr
  | logical (op : LogicalOp) (left right : Expr)
  | arithmetic (op : ArithmeticOp) (left right : Expr)
  | relational (op : RelationalOp) (left right : Expr)
  | unary (op : UnaryOp) (operand : Expr)
  /-- A property, reached over the segments before the last one. -/
  | property (path : List String) (ty : EdmType)
  | call (function : Builtin) (args : List Expr)
  | constant (value : Value) (ty : EdmType)

namespace Expr

/-- A constant with the type that its value has by itself. -/
def ofValue (value : Value) : Expr := constant value value.edmType

/-- The literal `null`. -/
def null : Expr := constant .null .null

/-- The static type of an expression. -/
def ty : Expr → EdmType
  | logical .. | relational .. => .boolean
  | unary .not _ => .boolean
  | unary .negate operand => operand.ty
  | arithmetic _ left _ => left.ty
  | property _ ty => ty
  | constant _ ty => ty
  | call function args => function.returnType (firstTy? args)
where
  /-- The type of the first of some expressions. -/
  firstTy? : List Expr → Option EdmType
    | [] => none
    | e :: _ => some e.ty

/-- The nesting depth of an expression; a leaf has depth one. -/
def depth : Expr → Nat
  | logical _ left right | arithmetic _ left right | relational _ left right =>
    1 + max left.depth right.depth
  | unary _ operand => 1 + operand.depth
  | call _ args => 1 + depths args
  | property .. | constant .. => 1
where
  /-- The greatest depth of some expressions, zero when there are none. -/
  depths : List Expr → Nat
    | [] => 0
    | e :: es => max e.depth (depths es)

/-- A text literal: in single quotes, with quotes inside doubled. -/
def quotedLiteral (s : String) : String :=
  String.ofList ('\x27' :: (s.toList.flatMap (fun c => if c = '\x27' then [c, c] else [c]) ++
    ['\x27']))

/-- An expression in the notation of filters. Logical and arithmetic operators are put in
parentheses, comparisons are not. -/
def text : Expr → String
  | logical op left right => "(" ++ left.text ++ " " ++ op.keyword ++ " " ++ right.text ++ ")"
  | arithmetic op left right => "(" ++ left.text ++ " " ++ op.keyword ++ " " ++ right.text ++ ")"
  | relational op left right => left.text ++ " " ++ op.keyword ++ " " ++ right.text
  | unary .negate operand => "-" ++ operand.text
  | unary .not operand => "not " ++ operand.text
  | property path _ => String.intercalate "/" path
  | call function args =>
    function.name ++ "(" ++ String.intercalate "," (texts args) ++ ")"
  | constant (.string s) _ => quotedLiteral s
  | constant value _ => value.text
where
  /-- The texts of some expressions. -/
  texts : List Expr → List String
    | [] => []
    | e :: es => e.text :: texts es

end Expr

end EntityQuery
