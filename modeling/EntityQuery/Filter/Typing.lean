import EntityQuery.Expr.Options
import EntityQuery.Filter.Parser
import EntityQuery.Model.Metadata

/-!
# Typing filters and sort orders

A parsed expression is typed against an entity model from its root entity type on. Every path is
walked over navigations to its last segment, which is a scalar property, or a navigation that has a
foreign key and then stands for its column. Functions are looked up by name and must accept the
number of arguments. A minus sign before a numeric literal becomes part of the literal.
-/

namespace EntityQuery

/-- What is wrong with the meaning of a text. -/
inductive TypeError.Cause
  | unknownEntity (entity : String)
  | unknownProperty (entity property : String)
  | unknownNavigation (entity segment : String)
  | unknownFunction (name : String)
  | arityMismatch (name : String) (arity : Arity) (got : Nat)
  /-- A literal that no value stands for, with a message of its own. -/
  | invalidLiteral (message : String)

/-- An error of typing with the span it is about. -/
structure TypeError where
  /-- What is wrong. -/
  cause : TypeError.Cause
  /-- Where. -/
  span : Span

namespace TypeError

/-- The name of the kind of error. -/
def kind (e : TypeError) : String :=
  match e.cause with
  | .unknownEntity _ => "UnknownEntity"
  | .unknownProperty _ _ => "UnknownProperty"
  | .unknownNavigation _ _ => "UnknownNavigation"
  | .unknownFunction _ => "UnknownFunction"
  | .arityMismatch _ _ _ => "ArityMismatch"
  | .invalidLiteral _ => "InvalidLiteral"

/-- The message of an error. -/
def message (e : TypeError) : String :=
  match e.cause with
  | .unknownEntity entity => "unknown entity type '" ++ entity ++ "'"
  | .unknownProperty entity property =>
    "unknown property '" ++ property ++ "' on entity type '" ++ entity ++ "'"
  | .unknownNavigation entity segment =>
    "'" ++ segment ++ "' is not a navigation property of entity type '" ++ entity ++ "'"
  | .unknownFunction name => "unknown function '" ++ name ++ "'"
  | .arityMismatch name arity got =>
    "function '" ++ name ++ "' takes " ++ arity.text ++ " argument(s), got " ++ toString got
  | .invalidLiteral message => message

/-- The diagnostic of an error. -/
def diagnostic (e : TypeError) : Diagnostic := ⟨some e.kind, e.message, e.span, none⟩

end TypeError

/-- A mistake in a filter or a sort order, of its form or of its meaning. -/
inductive LanguageError
  | parse (e : ParseError)
  | type (e : TypeError)

/-- The diagnostic of a mistake. -/
def LanguageError.diagnostic : LanguageError → Diagnostic
  | parse e => e.diagnostic
  | type e => e.diagnostic

/-- The literal with the opposite sign, if it is a number. -/
def Literal.negate? : Literal → Option Literal
  | int n => some (int (-n))
  | long n => some (long (-n))
  | double x => some (double x.neg)
  | decimal digits => some (decimal ("-" ++ digits))
  | _ => none

/-- The type that a quoted literal with a word before it declares. -/
def LiteralKind.edmType : LiteralKind → EdmType
  | dateTime => .dateTime
  | dateTimeOffset => .dateTimeOffset
  | guid => .guid
  | binary => .binary

namespace Typing

/-- The constant that a literal stands for. A whole number without suffix is as narrow as it can
be, and a quoted literal keeps its text under the type that it declares. -/
def constant (literal : Literal) (span : Span) : Except TypeError Expr :=
  match literal with
  | .null => .ok Expr.null
  | .bool b => .ok (Expr.ofValue (.bool b))
  | .int n =>
    if Int32.minValue.toInt ≤ n.toInt ∧ n.toInt ≤ Int32.maxValue.toInt then
      .ok (Expr.ofValue (.int32 n.toInt32))
    else .ok (Expr.ofValue (.int64 n))
  | .long n => .ok (Expr.ofValue (.int64 n))
  | .double x =>
    if x.isFinite then .ok (Expr.ofValue (.float64 x))
    else
      .error ⟨.invalidLiteral
        ("numeric literal " ++ String.ofList x.positional ++ " is out of range"), span⟩
  | .decimal digits => .ok (Expr.ofValue (.decimal digits))
  | .text value => .ok (Expr.ofValue (.string value))
  | .quoted kind body => .ok (.constant (.string body) kind.edmType)

/-- The entity type at the end of a walk over navigations. -/
def walk (m : Metadata) (span : Span) : String → List String → Except TypeError String
  | entity, [] => .ok entity
  | entity, segment :: segments =>
    match m.step? entity segment with
    | some target => walk m span target segments
    | none => .error ⟨.unknownNavigation entity segment, span⟩

/-- The type of the last segment of a path on the entity type that the others lead to. A
navigation has the type of the column of its foreign key, and one without a known type is taken
for a 64-bit integer. -/
def lastType (m : Metadata) (span : Span) (entity last : String) : Except TypeError EdmType :=
  let unknown : TypeError := ⟨.unknownProperty entity last, span⟩
  if m.isScalar entity last then
    match m.scalarType? entity last with
    | some ty => .ok ty
    | none => .error unknown
  else if m.isNavigation entity last then
    match m.foreignKey? entity last with
    | some column => .ok ((m.scalarType? entity column).getD .int64)
    | none => .error unknown
  else .error unknown

/-- The type of a path from a root entity type. -/
def pathType (m : Metadata) (root : String) (path : List String) (span : Span) :
    Except TypeError EdmType :=
  match path.getLast? with
  | none => .error ⟨.unknownProperty root "", span⟩
  | some last => do
    let entity ← walk m span root path.dropLast
    lastType m span entity last

/-- The typed expression of two operands and an operator. -/
def binary : BinaryOp → Expr → Expr → Expr
  | .logical op, left, right => .logical op left right
  | .relational op, left, right => .relational op left right
  | .arithmetic op, left, right => .arithmetic op left right

/-- The function of a call, if it accepts the number of arguments. -/
def function (name : Located String) (arguments : Nat) (span : Span) : Except TypeError Builtin :=
  match Builtin.ofName? name.value with
  | none => .error ⟨.unknownFunction name.value, name.span⟩
  | some f =>
    if f.arity.accepts arguments then .ok f
    else .error ⟨.arityMismatch f.name f.arity arguments, span⟩

/-- Types an expression from a root entity type. -/
def expr (m : Metadata) (root : String) : Syntax → Except TypeError Expr
  | .binary op left right _ => do
    let left ← expr m root left
    let right ← expr m root right
    return binary op left right
  | .unary .negate (.literal value _) span =>
    match value.negate? with
    | some negated => constant negated span
    | none => .error ⟨.invalidLiteral "only numeric literals can be negated", span⟩
  | .unary op operand _ => do
    let operand ← expr m root operand
    return .unary op operand
  | .path segments span => do
    let ty ← pathType m root segments span
    return .property segments ty
  | .call name args span => do
    let f ← function name args.length span
    let args ← exprs args
    return .call f args
  | .literal value span => constant value span
where
  /-- Types expressions one after the other. -/
  exprs : List Syntax → Except TypeError (List Expr)
    | [] => .ok []
    | e :: es => do
      let e ← expr m root e
      let es ← exprs es
      return e :: es

/-- Refuses a root entity type that is not known. -/
def checkRoot (m : Metadata) (root : String) (span : Span) : Except TypeError Unit :=
  if m.hasEntity root then .ok () else .error ⟨.unknownEntity root, span⟩

/-- Types a filter. -/
def filter (m : Metadata) (root : String) (e : Syntax) : Except TypeError Expr := do
  checkRoot m root e.span
  expr m root e

/-- Types an item of a sort order. -/
def orderKey (m : Metadata) (root : String) (item : OrderItem) : Except TypeError OrderKey := do
  let e ← expr m root item.expr
  return ⟨e, item.direction⟩

/-- Types a sort order. -/
def orderKeys (m : Metadata) (root : String) (items : List OrderItem) :
    Except TypeError (List OrderKey) := do
  if let some first := items.head? then checkRoot m root first.span
  items.mapM (orderKey m root)

end Typing

/-- The typed expression of a filter text. -/
def Expr.ofFilter (m : Metadata) (root source : String) : Except LanguageError Expr :=
  match Syntax.parseFilter source defaultNesting with
  | .error e => .error (.parse e)
  | .ok e => (Typing.filter m root e).mapError .type

/-- The typed sort keys of a sort order text. -/
def OrderKey.ofOrderBy (m : Metadata) (root source : String) :
    Except LanguageError (List OrderKey) :=
  match OrderItem.parseList source defaultNesting with
  | .error e => .error (.parse e)
  | .ok items => (Typing.orderKeys m root items).mapError .type

end EntityQuery
