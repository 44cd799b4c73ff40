import EntityQuery.Document.Value
import EntityQuery.Expr.Basic

/-!
# Documents of expressions

An expression is an object with the kind of its node under `node`. Decoding recurses over a bound
on the depth, which is taken from the document.
-/

namespace EntityQuery

namespace Expr

/-- The document of an expression. -/
def toJson : Expr → Json
  | logical op left right =>
    .object [("node", .string "logical"), ("op", .string op.tag), ("left", left.toJson),
      ("right", right.toJson)]
  | arithmetic op left right =>
    .object [("node", .string "arithmetic"), ("op", .string op.tag), ("left", left.toJson),
      ("right", right.toJson)]
  | relational op left right =>
    .object [("node", .string "relational"), ("op", .string op.tag), ("left", left.toJson),
      ("right", right.toJson)]
  | unary op operand =>
    .object [("node", .string "unary"), ("op", .string op.tag), ("operand", operand.toJson)]
  | property path ty =>
    .object [("node", .string "property_access"), ("path", Json.ofList .string path),
      ("ty", ty.toJson)]
  | call function args =>
    .object [("node", .string "function_call"), ("function", .string function.name),
      ("args", .array (listToJson args))]
  | constant value ty =>
    .object [("node", .string "constant"), ("value", value.toJson), ("ty", ty.toJson)]
where
  /-- The documents of some expressions. -/
  listToJson : List Expr → List Json
    | [] => []
    | e :: es => e.toJson :: listToJson es

/-- The function that a document names. -/
def builtinOfJson? : Json.Decoder Builtin := fun json =>
  (Json.asString json).bind Builtin.ofName?

/-- A choice that a document names. -/
def choiceOfJson? {α : Type} (ofTag? : String → Option α) : Json.Decoder α := fun json =>
  (Json.asName json).bind ofTag?

/-- The expression of a kind of node with some fields; `decode` reads the operands. -/
def ofFields? (decode : Json.Decoder Expr) (kind : String) (fields : Json) : Option Expr :=
  match kind with
  | "logical" =>
    match Json.asRecord ["op", "left", "right"] fields with
    | some [op, left, right] => do
      return logical (← Json.required (choiceOfJson? LogicalOp.ofTag?) op)
        (← Json.required decode left) (← Json.required decode right)
    | _ => none
  | "arithmetic" =>
    match Json.asRecord ["op", "left", "right"] fields with
    | some [op, left, right] => do
      return arithmetic (← Json.required (choiceOfJson? ArithmeticOp.ofTag?) op)
        (← Json.required decode left) (← Json.required decode right)
    | _ => none
  | "relational" =>
    match Json.asRecord ["op", "left", "right"] fields with
    | some [op, left, right] => do
      return relational (← Json.required (choiceOfJson? RelationalOp.ofTag?) op)
        (← Json.required decode left) (← Json.required decode right)
    | _ => none
  | "unary" =>
    match Json.asRecord ["op", "operand"] fields with
    | some [op, operand] => do
      return unary (← Json.required (choiceOfJson? UnaryOp.ofTag?) op)
        (← Json.required decode operand)
    | _ => none
  | "property_access" =>
    match Json.asRecord ["path", "ty"] fields with
    | some [path, ty] => do
      return property (← Json.required (Json.asList Json.asString) path)
        (← Json.required EdmType.ofJson? ty)
    | _ => none
  | "function_call" =>
    match Json.asRecord ["function", "args"] fields with
    | some [function, args] => do
      return call (← Json.required builtinOfJson? function)
        (← Json.required (Json.asList decode) args)
    | _ => none
  | "constant" =>
    match Json.asRecord ["value", "ty"] fields with
    | some [value, ty] => do
      return constant (← Json.required Value.ofJson? value) (← Json.required EdmType.ofJson? ty)
    | _ => none
  | _ => none

/-- The expression that a document of at most some depth holds. -/
def ofJsonWithin? : Nat → Json.Decoder Expr
  | 0, _ => none
  | depth + 1, json =>
    (Json.asTagged "node" json).bind fun (kind, fields) =>
      ofFields? (ofJsonWithin? depth) kind fields

/-- The expression that a document holds. -/
def ofJson? : Json.Decoder Expr := fun json => ofJsonWithin? json.depth json

end Expr

end EntityQuery
