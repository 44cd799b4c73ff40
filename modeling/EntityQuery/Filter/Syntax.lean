import EntityQuery.Filter.Token
import EntityQuery.Text.Span

/-!
# Syntax of filters and sort orders

The trees that filter text is parsed to, before property paths and functions are looked up. Every
node carries the span of the text that it was read from; parentheses leave no node.
-/

namespace EntityQuery

/-- An operator between two operands. -/
inductive BinaryOp
  | logical (op : LogicalOp)
  | relational (op : RelationalOp)
  | arithmetic (op : ArithmeticOp)
deriving DecidableEq

/-- The name of an operator in documents. -/
def BinaryOp.tag : BinaryOp → String
  | logical op => op.tag
  | relational op => op.tag
  | arithmetic op => op.tag

/-- A literal as it was written. -/
inductive Literal
  | null
  | bool (b : Bool)
  | int (n : Int64)
  | long (n : Int64)
  | double (x : Binary64)
  | decimal (digits : String)
  | text (value : String)
  | quoted (kind : LiteralKind) (body : String)
deriving DecidableEq

/-- A parsed expression. -/
inductive Syntax
  | binary (op : BinaryOp) (left right : Syntax) (span : Span)
  | unary (op : UnaryOp) (operand : Syntax) (span : Span)
  /-- Names with slashes between them. -/
  | path (segments : List String) (span : Span)
  /-- A name with arguments in parentheses. -/
  | call (name : Located String) (args : List Syntax) (span : Span)
  | literal (value : Literal) (span : Span)

namespace Syntax

/-- The span of an expression. -/
def span : Syntax → Span
  | binary _ _ _ span => span
  | unary _ _ span => span
  | path _ span => span
  | call _ _ span => span
  | literal _ span => span

/-- Two expressions with an operator between them. -/
def join (op : BinaryOp) (left right : Syntax) : Syntax :=
  binary op left right (left.span.merge right.span)

end Syntax

/-- One item of a sort order. -/
structure OrderItem where
  /-- What is sorted by. -/
  expr : Syntax
  /-- The direction, ascending when none is written. -/
  direction : Direction
  /-- The span of the expression and the direction. -/
  span : Span

end EntityQuery
