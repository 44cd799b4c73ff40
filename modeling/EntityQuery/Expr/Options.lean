import EntityQuery.Expr.Basic

/-!
# Query options

What a query asks for: a condition, a sort order, paging, and either the properties or the
navigations to return.
-/

namespace EntityQuery

/-- One key of a sort order. -/
structure OrderKey where
  /-- What is sorted by. -/
  expr : Expr
  /-- The direction. -/
  direction : Direction

/-- The options of one query. The filter and the sort keys are typed, and the others are checked
when the query is assembled. -/
structure QueryOptions where
  /-- The condition, if there is one. -/
  filter : Option Expr := none
  /-- The sort keys. -/
  orderBy : List OrderKey := []
  /-- The properties asked for. -/
  select : Option String := none
  /-- The navigations to fetch. -/
  expand : Option String := none
  /-- The greatest number of results. -/
  top : Option String := none
  /-- The number of results to leave out. -/
  skip : Option String := none

end EntityQuery
