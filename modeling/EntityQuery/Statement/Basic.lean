import EntityQuery.Statement.Builder

/-!
# Statements

A statement in the notation of the library itself, with its text: what is selected, the joins, the
condition, the sort keys and the paging, in this order, each left out where there is none.
-/

namespace EntityQuery

/-- A join of a statement. -/
structure JoinClause where
  /-- The alias of the parent, unless that is a root without alias. -/
  parent? : Option String
  /-- The property that is joined. -/
  property : String
  /-- The alias that it is joined under. -/
  aliasName : String
deriving DecidableEq

/-- A statement. -/
structure Statement where
  /-- The root entity type. -/
  root : String
  /-- The alias of the root, if it has one. -/
  rootAlias? : Option String
  /-- The joins. -/
  joins : List JoinClause
  /-- The parameters. -/
  parameters : Parameters
  /-- The condition, if there is one. -/
  condition? : Option Predicate
  /-- The sort keys. -/
  orderBy : List SortKey
  /-- The number of results to leave out, if any are. -/
  firstResult? : Option Nat
  /-- The greatest number of results, if there is one. -/
  maxResults? : Option Nat
  /-- What is returned. -/
  selection : Selection Scalar

/-- The text of a join. -/
def JoinClause.text (j : JoinClause) : String :=
  let parent := j.parent?.elim "" (· ++ ".")
  " join " ++ parent ++ j.property ++ " " ++ j.aliasName

/-- The text of a sort key. -/
def SortKey.text (key : SortKey) : String := key.scalar.text ++ " " ++ key.direction.keyword

/-- The text of what is selected from a root. -/
def Selection.text (root : String) : Selection Scalar → String
  | all => "select " ++ root
  | columns scalars =>
    "select " ++ String.intercalate ", " (scalars.map Scalar.text) ++ " from " ++ root
  | entities aliases => "select " ++ root ++ String.join (aliases.map (" fetch " ++ ·))

namespace Statement

/-- A statement that selects a root and nothing else. -/
def empty (root : String) (rootAlias? : Option String) : Statement :=
  ⟨root, rootAlias?, [], .empty, none, [], none, none, .all⟩

/-- The text of a statement. -/
def text (s : Statement) : String :=
  let root := s.rootAlias?.elim s.root (s.root ++ " " ++ ·)
  let condition := s.condition?.elim "" (" where " ++ ·.text)
  let order :=
    if s.orderBy.isEmpty then ""
    else " order by " ++ String.intercalate ", " (s.orderBy.map SortKey.text)
  let offset := s.firstResult?.elim "" (" offset " ++ toString ·)
  let limit := s.maxResults?.elim "" (" limit " ++ toString ·)
  s.selection.text root ++ String.join (s.joins.map JoinClause.text) ++ condition ++ order ++
    offset ++ limit

end Statement

end EntityQuery
