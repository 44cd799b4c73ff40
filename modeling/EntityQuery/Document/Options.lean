import EntityQuery.Document.Expr
import EntityQuery.Expr.Options
import EntityQuery.Json.Reader

/-!
# Documents of query options

A sort key is a record of an expression and a direction, and query options are a record of the
filter, the sort keys and the four options that stay text.
-/

namespace EntityQuery

namespace OrderKey

/-- The document of a sort key. -/
def toJson (key : OrderKey) : Json :=
  .object [("expr", key.expr.toJson), ("direction", .string key.direction.keyword)]

/-- The sort key that a document holds; without a direction it is ascending. -/
def ofJson? : Json.Decoder OrderKey := fun json =>
  match Json.asRecord ["expr", "direction"] json with
  | some [expr, direction] => do
    let expr ← Json.required Expr.ofJson? expr
    let direction ←
      Json.withDefault .ascending (Expr.choiceOfJson? Direction.ofKeyword?) direction
    return ⟨expr, direction⟩
  | _ => none

end OrderKey

namespace QueryOptions

/-- The document of query options. -/
def toJson (o : QueryOptions) : Json :=
  .object [("filter", Json.ofOption Expr.toJson o.filter),
    ("order_by", Json.ofList OrderKey.toJson o.orderBy),
    ("select", Json.ofOption .string o.select), ("expand", Json.ofOption .string o.expand),
    ("top", Json.ofOption .string o.top), ("skip", Json.ofOption .string o.skip)]

/-- The query options that a document holds; what is missing is not asked for. -/
def ofJson? : Json.Decoder QueryOptions := fun json =>
  match Json.asRecord ["filter", "order_by", "select", "expand", "top", "skip"] json with
  | some [filter, orderBy, select, expand, top, skip] => do
    let filter ← Json.withDefault none (Json.asOption Expr.ofJson?) filter
    let orderBy ← Json.withDefault [] (Json.asList OrderKey.ofJson?) orderBy
    let text := Json.withDefault none (Json.asOption Json.asString)
    return ⟨filter, orderBy, ← text select, ← text expand, ← text top, ← text skip⟩
  | _ => none

/-- The query options that a text holds as JSON. -/
def ofText? (text : String) : Option QueryOptions := (Json.read? text).bind ofJson?

end QueryOptions

end EntityQuery
