import EntityQuery.Document.Plan
import EntityQuery.Json.Printer
import EntityQuery.Statement.Recording
import EntityQuery.Text.Table

/-!
# Reports

What is told about a planned query or about a schema, as tables or as JSON. Tables of joins and
parameters appear only where there are some; the JSON report of a query has its members in
ascending order of their names.
-/

namespace EntityQuery

/-- The form of a report. -/
inductive ReportFormat
  | table
  | json
deriving DecidableEq

/-- The form with a name. -/
def ReportFormat.ofName? : String → Option ReportFormat
  | "table" => some .table
  | "json" => some .json
  | _ => none

namespace QueryPlan

/-- The table of the joins of a plan. -/
def joinTable (plan : QueryPlan) : Text.Table where
  header := ["Path", "Parent", "Property", "Alias", "Entity"]
  rows := plan.joins.steps.map fun j =>
    [String.intercalate "/" j.path, j.parent?.getD "-", j.property, j.aliasName, j.target]

/-- The table of the parameters of a plan. -/
def parameterTable (plan : QueryPlan) : Text.Table where
  header := ["Parameter", "Type", "Value"]
  rows := plan.parameters.entries.map fun (name, value) => [name, value.edmType.name, value.text]

/-- The report about a plan. -/
def report (plan : QueryPlan) : ReportFormat → String
  | .table =>
    let tables := [plan.joinTable, plan.parameterTable].filter fun t => !t.rows.isEmpty
    String.intercalate "\n\n" (plan.statement.text :: tables.map Text.Table.render)
  | .json =>
    let members := [("statement", .string plan.statement.text), ("plan", plan.toJson)]
    (Json.object members).sorted.pretty

end QueryPlan

/-- The report about a schema: its entity types. -/
def Schema.report (s : Schema) : ReportFormat → String
  | .table => Text.Table.render ⟨["Entity"], s.names.map fun name => [name]⟩
  | .json => (Json.object [("entities", Json.ofList .string s.names)]).compact

end EntityQuery
