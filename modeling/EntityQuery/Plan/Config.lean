/-!
# Settings of planning

Bounds on nesting, paging and expansion, and the names that parameters and joins are given.
-/

namespace EntityQuery

/-- Inserts a name into an ascending list, unless it is there. -/
def insertName (name : String) : List String → List String
  | [] => [name]
  | n :: ns =>
    if name < n then name :: n :: ns else if name = n then n :: ns else n :: insertName name ns

/-- Settings of planning. -/
structure Config where
  /-- How deep expressions may be nested. -/
  maxDepth : Nat
  /-- What the names of parameters begin with. -/
  parameterPrefix : String
  /-- The names that no parameter is given, in ascending order. -/
  reservedParameters : List String
  /-- What the aliases of joins end with. -/
  aliasSuffix : String
  /-- The alias of the root, if it has one. -/
  rootAlias? : Option String
  /-- How many results are asked for at most, if that is bounded. -/
  maxPageSize? : Option Nat
  /-- How many segments a path to expand may have. -/
  maxExpandDepth : Nat
deriving DecidableEq

namespace Config

/-- The settings that hold where none are given. -/
def default : Config where
  maxDepth := 64
  parameterPrefix := "p"
  reservedParameters := []
  aliasSuffix := "_alias"
  rootAlias? := none
  maxPageSize? := none
  maxExpandDepth := 4

/-- Sets the bound on nesting, which lets a leaf through at least. -/
def withMaxDepth (c : Config) (depth : Nat) : Config := { c with maxDepth := max 1 depth }

/-- Reserves the name of a parameter. -/
def reserve (c : Config) (name : String) : Config :=
  { c with reservedParameters := insertName name c.reservedParameters }

end Config

end EntityQuery
