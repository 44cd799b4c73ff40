import EntityQuery.Document.Expr
import EntityQuery.Statement.Basic

/-!
# Documents of plans and statements

Scalars and predicates are objects with their kind under `kind`. A plan lists its joins under
`steps` and holds its parameters as an object by name; a statement leaves out the parts that it
does not have.
-/

namespace EntityQuery

namespace Scalar

/-- The document of a scalar. -/
def toJson : Scalar → Json
  | column alias? name =>
    .object [("kind", .string "column"), ("alias", Json.ofOption .string alias?),
      ("name", .string name)]
  | parameter name => .object [("kind", .string "parameter"), ("name", .string name)]
  | constant n => .object [("kind", .string "constant"), ("value", .int n.toInt)]
  | function f args =>
    .object [("kind", .string "function"), ("function", .string f.name),
      ("args", .array (listToJson args))]
  | arithmetic op left right =>
    .object [("kind", .string "arithmetic"), ("op", .string op.tag), ("left", left.toJson),
      ("right", right.toJson)]
  | negate operand => .object [("kind", .string "negate"), ("operand", operand.toJson)]
where
  /-- The documents of some scalars. -/
  listToJson : List Scalar → List Json
    | [] => []
    | s :: ss => s.toJson :: listToJson ss

end Scalar

namespace Predicate

/-- The document of a predicate. -/
def toJson : Predicate → Json
  | const b => .object [("kind", .string "const"), ("value", .bool b)]
  | and left right =>
    .object [("kind", .string "and"), ("left", left.toJson), ("right", right.toJson)]
  | or left right =>
    .object [("kind", .string "or"), ("left", left.toJson), ("right", right.toJson)]
  | not operand => .object [("kind", .string "not"), ("operand", operand.toJson)]
  | compare op left right =>
    .object [("kind", .string "compare"), ("op", .string op.tag), ("left", left.toJson),
      ("right", right.toJson)]
  | like value pattern =>
    .object [("kind", .string "like"), ("value", value.toJson), ("pattern", pattern.toJson)]
  | isNull operand => .object [("kind", .string "is_null"), ("operand", operand.toJson)]
  | isNotNull operand => .object [("kind", .string "is_not_null"), ("operand", operand.toJson)]

end Predicate

/-- The document of a sort key, with what is sorted by under a name. -/
def SortKey.toJson (name : String) (key : SortKey) : Json :=
  .object [(name, key.scalar.toJson), ("direction", .string key.direction.keyword)]

/-- The document of a join. -/
def Join.toJson (j : Join) : Json :=
  .object [("path", Json.ofList .string j.path), ("parent_alias", Json.ofOption .string j.parent?),
    ("property", .string j.property), ("alias", .string j.aliasName),
    ("target_entity", .string j.target)]

/-- The document of joins. -/
def JoinPlan.toJson (joins : JoinPlan) : Json :=
  .object [("steps", Json.ofList Join.toJson joins.steps)]

/-- The document of parameters. -/
def Parameters.toJson (ps : Parameters) : Json :=
  .object (ps.entries.map fun (name, value) => (name, value.toJson))

/-- A choice with its content, if it has one. -/
private def kindWithItems (kind : String) (items? : Option Json) : Json :=
  .object (("kind", .string kind) :: (items?.map (("items", ·))).toList)

/-- The document of an expansion. -/
def Expansion.toJson (e : Expansion) : Json :=
  .object [("path", Json.ofList .string e.path), ("alias", .string e.aliasName)]

/-- The document of a projection. -/
def Projection.toJson : Projection → Json
  | all => kindWithItems "all" none
  | columns scalars => kindWithItems "columns" (some (Json.ofList Scalar.toJson scalars))
  | expand items => kindWithItems "expand" (some (Json.ofList Expansion.toJson items))

/-- The document of a selection. -/
def Selection.toJson : Selection Scalar → Json
  | all => kindWithItems "all" none
  | columns scalars => kindWithItems "columns" (some (Json.ofList Scalar.toJson scalars))
  | entities aliases => kindWithItems "entities" (some (Json.ofList .string aliases))

/-- The document of a plan, given those of its joins and its parameters. -/
def QueryPlan.toJsonWith (plan : QueryPlan) (joins parameters : Json) : Json :=
  .object [("root_entity", .string plan.root),
    ("root_alias", Json.ofOption .string plan.rootAlias?),
    ("joins", joins), ("parameters", parameters),
    ("predicate", Json.ofOption Predicate.toJson plan.predicate?),
    ("order_by", Json.ofList (SortKey.toJson "scalar") plan.orderBy),
    ("first_result", Json.ofOption Json.ofNat plan.firstResult?),
    ("max_results", Json.ofOption Json.ofNat plan.maxResults?),
    ("projection", plan.projection.toJson)]

/-- The document of a plan. -/
def QueryPlan.toJson (plan : QueryPlan) : Json :=
  plan.toJsonWith plan.joins.toJson plan.parameters.toJson

/-- The document of a join of a statement. -/
def JoinClause.toJson (j : JoinClause) : Json :=
  .object [("parent_alias", Json.ofOption .string j.parent?), ("property", .string j.property),
    ("alias", .string j.aliasName)]

/-- The document of a statement, given that of its parameters. -/
def Statement.toJsonWith (s : Statement) (parameters : Json) : Json :=
  let optional (name : String) (json? : Option Json) : List (String × Json) :=
    (json?.map ((name, ·))).toList
  .object ([("root_entity", .string s.root), ("root_alias", Json.ofOption .string s.rootAlias?),
      ("joins", Json.ofList JoinClause.toJson s.joins), ("parameters", parameters)] ++
    optional "where" (s.condition?.map Predicate.toJson) ++
    [("order_by", Json.ofList (SortKey.toJson "expr") s.orderBy)] ++
    optional "first_result" (s.firstResult?.map Json.ofNat) ++
    optional "max_results" (s.maxResults?.map Json.ofNat) ++
    [("projection", s.selection.toJson)])

/-- The document of a statement. -/
def Statement.toJson (s : Statement) : Json := s.toJsonWith s.parameters.toJson

end EntityQuery
