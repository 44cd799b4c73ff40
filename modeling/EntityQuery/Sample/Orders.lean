import EntityQuery.Plan.QueryPlan
import EntityQuery.Sample.Shop

/-!
# A sample query

Customers of the shop with a large order, sorted by a part of their names.
-/

namespace EntityQuery.Shop

/-- Customers and what can be reached from them. -/
def customers : Scope := ⟨schema.metadata, "Customer", .default⟩

/-- The planner of queries against the shop. -/
def planner : Planner := ⟨schema.metadata, .default⟩

/-- The condition that there is an order of more than five. -/
def largeOrder : Expr :=
  .relational .gt (.property ["orders", "total"] .decimal) (.constant (.int32 5) .int32)

/-- The condition that a part of the name stands at a position and that there is an order that was
placed at some time or later. -/
def lookup (part since : String) (position : Int32) : Expr :=
  .logical .and
    (.relational .eq
      (.call .indexOf [.property ["name"] .string, .constant (.string part) .string])
      (.constant (.int32 position) .int32))
    (.relational .ge
      (.call .dateTimeCompare
        [.property ["orders", "placed"] .dateTime, .constant (.string since) .string])
      (.constant (.int32 0) .int32))

/-- The part of the name from the third character on. -/
def namePart : Expr :=
  .call .substring [.property ["name"] .string, .constant (.int32 2) .int32]

/-- Customers with a large order, sorted by a part of their names, with their orders and the items
of these. -/
def largeOrders : QueryOptions where
  filter := some largeOrder
  orderBy := [⟨namePart, .descending⟩]
  expand := some "orders, orders/items"

end EntityQuery.Shop
