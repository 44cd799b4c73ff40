import EntityQuery.Command.Report
import EntityQuery.Filter.Typing

/-!
# Requests

A request names an entity type and gives its query options as texts. It is answered with the report
about the plan of the query, and without an entity type with the report about the schema.
-/

namespace EntityQuery

/-- A request. -/
structure Request where
  /-- The root entity type; without one the schema is reported. -/
  entity? : Option String := none
  /-- The text of the filter. -/
  filter? : Option String := none
  /-- The text of the sort order. -/
  orderBy? : Option String := none
  /-- The properties to select. -/
  select? : Option String := none
  /-- The navigations to expand. -/
  expand? : Option String := none
  /-- The greatest number of results. -/
  top? : Option String := none
  /-- The number of results to leave out. -/
  skip? : Option String := none
  /-- The form of the report. -/
  format : ReportFormat := .table

/-- Why a request was not answered. -/
inductive RequestError
  | unreadable (path reason : String)
  /-- The document of the settings is none. -/
  | malformedConfig
  /-- A mistake in a text, with its source. -/
  | language (e : LanguageError) (source : String)
  | plan (e : PlanError)

/-- The message of an error. -/
def RequestError.message : RequestError → String
  | unreadable path reason => "cannot read " ++ path ++ ": " ++ reason
  | malformedConfig => "invalid configuration: malformed document"
  | language e source => e.diagnostic.render source
  | plan e => e.message

/-- The typed form of an optional text. -/
def typedText {α : Type} (default : α) (type : String → Except LanguageError α) :
    Option String → Except RequestError α
  | none => .ok default
  | some source => (type source).mapError (.language · source)

namespace Request

/-- The query options of a request for an entity type. -/
def options (m : Metadata) (entity : String) (r : Request) : Except RequestError QueryOptions := do
  let filter ← typedText none (fun source => some <$> Expr.ofFilter m entity source) r.filter?
  let orderBy ← typedText [] (OrderKey.ofOrderBy m entity) r.orderBy?
  return { filter, orderBy, select := r.select?, expand := r.expand?, top := r.top?,
           skip := r.skip? }

/-- The answer to a request. -/
def answer (schema : Schema) (config : Config) (r : Request) : Except RequestError String :=
  match r.entity? with
  | none => .ok (schema.report r.format)
  | some entity => do
    let options ← r.options schema.metadata entity
    let planner : Planner := ⟨schema.metadata, config⟩
    let plan ← (planner.assemble entity options).mapError .plan
    return plan.report r.format

end Request

end EntityQuery
