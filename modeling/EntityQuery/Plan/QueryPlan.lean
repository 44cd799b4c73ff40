import EntityQuery.Plan.Compilation
import EntityQuery.Text.Blank

/-!
# Query plans

A plan holds everything that a query needs: joins, parameters, a condition, sort keys, paging and
what is returned. It is made step by step, one step for each kind of option. A step goes on from
the joins and parameters of the plan, so that all options share them, and returns a new plan, so
that a step that fails changes nothing.
-/

namespace EntityQuery

/-- A navigation that is fetched along with the root. -/
structure Expansion where
  /-- Its path. -/
  path : List String
  /-- The alias of what it leads to. -/
  aliasName : String
deriving DecidableEq

/-- What a query returns. -/
inductive Projection
  /-- Every column of the root. -/
  | all
  | columns (columns : List Scalar)
  /-- The root with navigations. -/
  | expand (items : List Expansion)

/-- A planned query. -/
structure QueryPlan where
  /-- The root entity type. -/
  root : String
  /-- The alias of the root, if it has one. -/
  rootAlias? : Option String
  /-- The joins. -/
  joins : JoinPlan
  /-- The parameters. -/
  parameters : Parameters
  /-- The condition, if there is one. -/
  predicate? : Option Predicate
  /-- The sort keys. -/
  orderBy : List SortKey
  /-- The number of results to leave out, if any are. -/
  firstResult? : Option Nat
  /-- The greatest number of results, if there is one. -/
  maxResults? : Option Nat
  /-- What is returned. -/
  projection : Projection

/-- A plan that asks for a root entity type and nothing else. -/
def QueryPlan.empty (root : String) (rootAlias? : Option String) : QueryPlan :=
  ⟨root, rootAlias?, .empty, .empty, none, [], none, none, .all⟩

/-- The natural number of 64 bits that a text of decimal digits stands for; a plus sign may
stand before them. -/
def readCount (cs : List Char) : Option Nat :=
  let digits := match cs with
    | '+' :: rest => rest
    | _ => cs
  if !digits.isEmpty && digits.all Char.isDigit then
    let n := digits.foldl (fun n c => 10 * n + (c.toNat - '0'.toNat)) 0
    if n < UInt64.size then some n else none
  else none

/-- The value of a paging option, which may stand between blanks. -/
def parseCount (option text : String) : Except PlanError Nat :=
  match readCount (Text.trim text.toList) with
  | some n => .ok n
  | none => .error (.invalidPaging option text)

/-- The paths of a list of paths: separated by commas, with segments between slashes. Blanks
around items and segments are dropped, and so are blank items. -/
def splitPaths (text : String) : List (List String) :=
  let items := ((Text.splitAt ',' text.toList).map Text.trim).filter (!·.isEmpty)
  items.map fun item => (Text.splitAt '/' item).map fun segment => String.ofList (Text.trim segment)

namespace Scope

/-- The columns of some properties, from left to right. -/
def resolveProperties (s : Scope) : List (List String) → JoinPlan.Run (List Scalar)
  | [] => return []
  | path :: paths => do
    let column ← s.resolveProperty path
    let columns ← s.resolveProperties paths
    return column :: columns

/-- Fetches what some paths lead to on top of what is fetched already; a path that is fetched
counts once. -/
def expandPaths (s : Scope) (items : List Expansion) :
    List (List String) → JoinPlan.Run (List Expansion)
  | [] => return items
  | path :: paths => do
    if s.config.maxExpandDepth < path.length then
      throw (.expandTooDeep path s.config.maxExpandDepth)
    let place ← s.resolve path
    if items.any (·.path == path) then s.expandPaths items paths
    else s.expandPaths (items ++ [⟨path, place.alias?.getD s.root⟩]) paths

end Scope

/-- What plans are made with. -/
structure Planner where
  /-- The answers about entity types. -/
  metadata : Metadata
  /-- The settings. -/
  config : Config

namespace Planner

/-- What the paths of a plan are resolved against. -/
def scope (planner : Planner) (plan : QueryPlan) : Scope :=
  ⟨planner.metadata, plan.root, planner.config⟩

/-- Runs a computation on the joins and parameters of a plan. -/
def continuing {α : Type} (plan : QueryPlan) (run : Session.Run α) :
    Except PlanError (α × QueryPlan) :=
  match run (.resume plan.joins plan.parameters) with
  | .ok a session => .ok (a, { plan with joins := session.joins, parameters := session.parameters })
  | .error e _ => .error e

/-- The empty plan of a known entity type. -/
def start (planner : Planner) (entity : String) : Except PlanError QueryPlan :=
  if planner.metadata.hasEntity entity then .ok (.empty entity planner.config.rootAlias?)
  else .error (.unknownEntity entity)

/-- Gives a plan the condition of a filter. -/
def filter (planner : Planner) (plan : QueryPlan) : Option Expr → Except PlanError QueryPlan
  | none => .ok plan
  | some e => do
    let (p, plan) ← continuing plan ((planner.scope plan).condition e)
    return { plan with predicate? := some p }

/-- Adds sort keys to those of a plan. -/
def orderBy (planner : Planner) (plan : QueryPlan) : List OrderKey → Except PlanError QueryPlan
  | [] => .ok plan
  | keys => do
    let (sortKeys, plan) ← continuing plan ((planner.scope plan).sortKeys keys)
    return { plan with orderBy := plan.orderBy ++ sortKeys }

/-- A number of results within the bound on their number. -/
def clamp (planner : Planner) (n : Nat) : Nat := planner.config.maxPageSize?.elim n (min n)

/-- Gives a plan the numbers of results to leave out and to return. -/
def paging (planner : Planner) (plan : QueryPlan) (top? skip? : Option String) :
    Except PlanError QueryPlan := do
  let plan ← match skip? with
    | none => pure plan
    | some text => do
      let n ← parseCount "$skip" text
      pure { plan with firstResult? := some n }
  match top? with
  | none => pure plan
  | some text => do
    let n ← parseCount "$top" text
    pure { plan with maxResults? := some (planner.clamp n) }

/-- Whether some paths select every column: there are none, or one of them is `*`. -/
def selectsAll (paths : List (List String)) : Bool := paths.isEmpty || paths.contains ["*"]

/-- Gives a plan the properties to select or the navigations to expand, which exclude each
other. -/
def projection (planner : Planner) (plan : QueryPlan) (select? expand? : Option String) :
    Except PlanError QueryPlan :=
  match select?, expand? with
  | some _, some _ => .error .conflictingProjection
  | none, none => .ok plan
  | some select, none =>
    let paths := splitPaths select
    if selectsAll paths then .ok { plan with projection := .all }
    else do
      let (columns, plan) ←
        continuing plan (Session.onJoins ((planner.scope plan).resolveProperties paths))
      return { plan with projection := .columns columns }
  | none, some expand => do
    let (items, plan) ←
      continuing plan (Session.onJoins ((planner.scope plan).expandPaths [] (splitPaths expand)))
    return { plan with projection := .expand items }

/-- The plan of query options for an entity type. -/
def assemble (planner : Planner) (entity : String) (o : QueryOptions) :
    Except PlanError QueryPlan := do
  let plan ← planner.start entity
  let plan ← planner.filter plan o.filter
  let plan ← planner.orderBy plan o.orderBy
  let plan ← planner.paging plan o.top o.skip
  planner.projection plan o.select o.expand

end Planner

end EntityQuery
