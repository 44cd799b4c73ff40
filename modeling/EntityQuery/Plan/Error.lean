import EntityQuery.Expr.Operator
import EntityQuery.Model.Builtin
import EntityQuery.Model.Schema

/-!
# Errors of planning a query

What can be wrong with query options beyond the form of their texts, and with the schema that they
are planned against.
-/

namespace EntityQuery

/-- Why no plan was made. -/
inductive PlanError
  | unknownEntity (entity : String)
  | unknownNavigation (entity segment : String)
  | unknownProperty (entity property : String)
  | unknownFunction (name : String)
  | arityMismatch (function : Builtin) (got : Nat)
  /-- An operator has no meaning for what it is applied to. -/
  | unsupported (operator operand : String)
  /-- The literal `null` is compared by an order. -/
  | nullNotComparable (op : RelationalOp)
  /-- Columns and navigations are selected at once. -/
  | conflictingProjection
  | invalidPaging (option value : String)
  /-- A text is no literal of the type that it is declared with. -/
  | invalidLiteral (ty : EdmType) (text : String)
  | tooDeep (limit : Nat)
  | expandTooDeep (path : List String) (limit : Nat)
  | invalidSchema (e : SchemaError)
deriving DecidableEq

namespace PlanError

/-- The message of an error. -/
def message : PlanError → String
  | unknownEntity entity => "unknown entity type '" ++ entity ++ "'"
  | unknownNavigation entity segment =>
    "'" ++ segment ++ "' is not a navigation property of entity type '" ++ entity ++ "'"
  | unknownProperty entity property =>
    "unknown property '" ++ property ++ "' on entity type '" ++ entity ++ "'"
  | unknownFunction name => "unknown function '" ++ name ++ "'"
  | arityMismatch function got =>
    "function '" ++ function.name ++ "' takes " ++ function.arity.text ++ " argument(s), got " ++
      toString got
  | unsupported operator operand =>
    "operator '" ++ operator ++ "' is not supported for " ++ operand
  | nullNotComparable op =>
    "null can only be compared with 'eq' or 'ne', not '" ++ op.keyword ++ "'"
  | conflictingProjection => "$select and $expand cannot be combined"
  | invalidPaging option value =>
    "invalid value '" ++ value ++ "' for " ++ option ++ ": expected a non-negative integer"
  | invalidLiteral ty text => "invalid " ++ ty.name ++ " literal '" ++ text ++ "'"
  | tooDeep limit => "expression nested deeper than " ++ toString limit ++ " levels"
  | expandTooDeep path limit =>
    "expand path '" ++ String.intercalate "/" path ++ "' exceeds the maximum depth of " ++
      toString limit
  | invalidSchema e => "invalid schema: " ++ e.message

/-- The name of the kind of error. -/
def kind : PlanError → String
  | unknownEntity .. => "UnknownEntity"
  | unknownNavigation .. => "UnknownNavigationProperty"
  | unknownProperty .. => "UnknownProperty"
  | unknownFunction .. => "UnknownFunction"
  | arityMismatch .. => "ArityMismatch"
  | unsupported .. => "UnsupportedOperator"
  | nullNotComparable .. => "NullNotComparable"
  | conflictingProjection => "ConflictingProjection"
  | invalidPaging .. => "InvalidPagingValue"
  | invalidLiteral .. => "InvalidLiteral"
  | tooDeep .. => "RecursionLimit"
  | expandTooDeep .. => "ExpandTooDeep"
  | invalidSchema .. => "InvalidSchema"

/-- Whether the one who asked is to blame, and not the model. -/
def isClientError : PlanError → Bool
  | invalidSchema _ => false
  | _ => true

end PlanError

end EntityQuery
