import EntityQuery.Model.Metadata
import EntityQuery.Plan.Config
import EntityQuery.Plan.Error
import EntityQuery.Plan.FreeName
import EntityQuery.Plan.Predicate

/-!
# Joins

Every navigation path that a query follows is reached by one join, however often it is followed.
Resolving a path walks it segment by segment and adds a join for each part that has none yet. The
alias of a join is made of the segments of its path, with a number behind it where another join or
the root has the same.
-/

namespace EntityQuery

/-- A join: a property of its parent, reached under an alias. -/
structure Join where
  /-- The navigations from the root up to this one. -/
  path : List String
  /-- The alias of the parent, unless that is a root without alias. -/
  parent? : Option String
  /-- The navigation that is followed. -/
  property : String
  /-- The alias of what is reached. -/
  aliasName : String
  /-- The entity type of what is reached. -/
  target : String
deriving DecidableEq

/-- Joins in the order in which they were added; a parent comes before its children. A path is
searched for among them; `JoinTable` is the same joins with an index from their paths. -/
structure JoinPlan where
  /-- The joins. -/
  steps : List Join
deriving DecidableEq

namespace JoinPlan

/-- No joins. -/
def empty : JoinPlan := ⟨[]⟩

/-- The join of a path. -/
def get? (plan : JoinPlan) (path : List String) : Option Join :=
  plan.steps.find? (·.path == path)

/-- The alias of a path. -/
def alias? (plan : JoinPlan) (path : List String) : Option String :=
  (plan.get? path).map (·.aliasName)

/-- The aliases of the joins. -/
def aliases (plan : JoinPlan) : List String := plan.steps.map (·.aliasName)

/-- The plan with one more join. -/
def push (plan : JoinPlan) (step : Join) : JoinPlan := ⟨plan.steps ++ [step]⟩

end JoinPlan

/-- What a path leads to. -/
structure Place where
  /-- The alias that qualifies its columns. -/
  alias? : Option String
  /-- Its entity type. -/
  entity : String
deriving DecidableEq

/-- What paths are resolved against. -/
structure Scope where
  /-- The answers about entity types. -/
  metadata : Metadata
  /-- The root entity type. -/
  root : String
  /-- The settings. -/
  config : Config

/-- A computation that adds joins. What was added stays when it fails. -/
abbrev JoinPlan.Run := EStateM PlanError JoinPlan

namespace Scope

/-- The candidates for the alias of a path: its segments and the suffix, then the same with a
number from two on. -/
def aliasCandidate (s : Scope) (path : List String) (n : Nat) : String :=
  let base := String.intercalate "_" path ++ s.config.aliasSuffix
  if n = 0 then base else base ++ toString (n + 1)

/-- Whether an alias is the root's or a join's. -/
def isAliasTaken (s : Scope) (plan : JoinPlan) (aliasName : String) : Bool :=
  s.config.rootAlias? == some aliasName || plan.aliases.contains aliasName

/-- The alias that a new join of a path is given. -/
def freshAlias (s : Scope) (plan : JoinPlan) (path : List String) : String :=
  s.aliasCandidate path
    (firstFree (s.isAliasTaken plan) (s.aliasCandidate path) (plan.steps.length + 1) 0)

/-- The root. -/
def rootPlace (s : Scope) : Place := ⟨s.config.rootAlias?, s.root⟩

/-- Follows one navigation from the place that a path leads to, over its join if there is one and
over a new join if not. -/
def follow (s : Scope) (done : List String) (place : Place) (segment : String) :
    JoinPlan.Run Place := do
  let path := done ++ [segment]
  let plan ← get
  match plan.get? path with
  | some step => return ⟨some step.aliasName, step.target⟩
  | none =>
    match s.metadata.step? place.entity segment with
    | none => throw (.unknownNavigation place.entity segment)
    | some target =>
      let aliasName := s.freshAlias plan path
      set (plan.push ⟨path, place.alias?, segment, aliasName, target⟩)
      return ⟨some aliasName, target⟩

/-- Follows navigations one after the other from the place that a path leads to. -/
def followAll (s : Scope) (done : List String) (place : Place) :
    List String → JoinPlan.Run Place
  | [] => return place
  | segment :: segments => do
    let place ← s.follow done place segment
    s.followAll (done ++ [segment]) place segments

/-- What a path of navigations leads to; the empty one leads to the root. -/
def resolve (s : Scope) (path : List String) : JoinPlan.Run Place :=
  s.followAll [] s.rootPlace path

/-- The column of a place that a property stands for: its own if it is scalar, and that of its
foreign key if it is a navigation. -/
def column? (s : Scope) (place : Place) (property : String) : Option String :=
  if s.metadata.isScalar place.entity property then some property
  else if s.metadata.isNavigation place.entity property then
    s.metadata.foreignKey? place.entity property
  else none

/-- The column that a path of navigations and a last property lead to. -/
def resolveProperty (s : Scope) (path : List String) : JoinPlan.Run Scalar := do
  match path.getLast? with
  | none => throw (.unknownProperty s.root "")
  | some last =>
    let place ← s.resolve path.dropLast
    match s.column? place last with
    | some column => return .column place.alias? column
    | none => throw (.unknownProperty place.entity last)

end Scope

end EntityQuery
