import EntityQuery.Command.Line
import EntityQuery.Command.Report
import EntityQuery.Command.Request
import EntityQuery.Document.Config
import EntityQuery.Document.Expr
import EntityQuery.Document.Options
import EntityQuery.Document.Plan
import EntityQuery.Document.Schema
import EntityQuery.Document.Syntax
import EntityQuery.Document.Value
import EntityQuery.Expr.Basic
import EntityQuery.Expr.Operator
import EntityQuery.Expr.Options
import EntityQuery.Filter.Diagnostic
import EntityQuery.Filter.Lexeme
import EntityQuery.Filter.Lookahead
import EntityQuery.Filter.ParseError
import EntityQuery.Filter.Parser
import EntityQuery.Filter.Syntax
import EntityQuery.Filter.Token
import EntityQuery.Filter.Typing
import EntityQuery.Json.Basic
import EntityQuery.Json.Decode
import EntityQuery.Json.Printer
import EntityQuery.Json.Reader
import EntityQuery.Model.Builtin
import EntityQuery.Model.EdmType
import EntityQuery.Model.Guid
import EntityQuery.Model.Metadata
import EntityQuery.Model.Relation
import EntityQuery.Model.Schema
import EntityQuery.Model.Table
import EntityQuery.Model.Value
import EntityQuery.Number.Binary64
import EntityQuery.Number.Shortest
import EntityQuery.Plan.Calls
import EntityQuery.Plan.Compilation
import EntityQuery.Plan.Config
import EntityQuery.Plan.Error
import EntityQuery.Plan.Fragment
import EntityQuery.Plan.FreeName
import EntityQuery.Plan.Joins
import EntityQuery.Plan.Parameters
import EntityQuery.Plan.Predicate
import EntityQuery.Plan.QueryPlan
import EntityQuery.Proofs.Aliases
import EntityQuery.Proofs.Binding
import EntityQuery.Proofs.FreeName
import EntityQuery.Proofs.Joins
import EntityQuery.Proofs.JsonTexts
import EntityQuery.Proofs.Lowering
import EntityQuery.Proofs.Run
import EntityQuery.Sample.Shop
import EntityQuery.Statement.Basic
import EntityQuery.Statement.Builder
import EntityQuery.Statement.Recording
import EntityQuery.Text.Blank
import EntityQuery.Text.Columns
import EntityQuery.Text.Emoji
import EntityQuery.Text.Hex
import EntityQuery.Text.Ligature
import EntityQuery.Text.Printable
import EntityQuery.Text.Quoted
import EntityQuery.Text.Ranges
import EntityQuery.Text.Span
import EntityQuery.Text.Table
import EntityQuery.Text.Width
import EntityQuery.Time.Calendar
import EntityQuery.Time.Instant
import EntityQuery.Time.Reader
import EntityQuery.Main
import EntityQuery.Proofs.Sessions
import EntityQuery.Proofs.Evaluation
import EntityQuery.Proofs.Meaning
import EntityQuery.Proofs.References
import EntityQuery.Proofs.Navigations
import EntityQuery.Proofs.Columns
import EntityQuery.Proofs.Plans
import EntityQuery.Proofs.Preservation
import EntityQuery.Proofs.Indexes
import EntityQuery.Proofs.JoinTree
import EntityQuery.Proofs.JoinTables
import EntityQuery.Proofs.TwoRuns
import EntityQuery.Proofs.Constants
import EntityQuery.Proofs.Payloads
import EntityQuery.Proofs.Failures
import EntityQuery.Proofs.TypedNames
import EntityQuery.Proofs.Grammar
import EntityQuery.Proofs.ParserRuns
import EntityQuery.Proofs.ParserSoundness
import EntityQuery.Proofs.ParserCompleteness
import EntityQuery.Proofs.ParserRefusals
import EntityQuery.Proofs.Parsing
import EntityQuery.Proofs.Resumption
import EntityQuery.Proofs.OneSession
import EntityQuery.Proofs.Scalars
import EntityQuery.Proofs.WaitingCalls
import EntityQuery.Proofs.Comparisons
import EntityQuery.Proofs.NullSafety
import EntityQuery.Proofs.Orderings
import EntityQuery.Proofs.Recordings
import EntityQuery.Proofs.Readers
import EntityQuery.Proofs.Patterns
import EntityQuery.Proofs.Calendar
import EntityQuery.Proofs.Instants
import EntityQuery.Proofs.Documents
import EntityQuery.Proofs.Lexemes
import EntityQuery.Proofs.Spelling
import EntityQuery.Proofs.Tasks
import EntityQuery.Proofs.Depths
import EntityQuery.Proofs.TreeDepth
import EntityQuery.Proofs.Positions
import EntityQuery.Proofs.ParameterNames
import EntityQuery.Proofs.Resolutions
import EntityQuery.Proofs.JoinOrder
import EntityQuery.Proofs.PropertyPaths
import EntityQuery.Proofs.Coverage
import EntityQuery.Proofs.Spans
import EntityQuery.Proofs.Mistakes
import EntityQuery.Proofs.Terms
import EntityQuery.Proofs.UniqueReading
import EntityQuery.Proofs.Acceptance
import EntityQuery.Proofs.Mirrored
import EntityQuery.Proofs.FilterReading
import EntityQuery.Proofs.WholeNumbers
import EntityQuery.Proofs.Identifiers
import EntityQuery.Proofs.DateTimeTexts
import EntityQuery.Proofs.FilterTexts
import EntityQuery.Proofs.Chains
import EntityQuery.Proofs.Grouping
import EntityQuery.Proofs.JoinFields
import EntityQuery.Proofs.SchemaBuilding
import EntityQuery.Proofs.SchemaDocuments
import EntityQuery.Proofs.Schemas
import EntityQuery.Proofs.StaticTypes
import EntityQuery.Proofs.Projections
import EntityQuery.Proofs.Lines
import EntityQuery.Proofs.Snippets
import EntityQuery.Proofs.LineColumns
import EntityQuery.Proofs.Lookaheads
import EntityQuery.Proofs.NameSearches
import EntityQuery.Proofs.ParameterTables
import EntityQuery.Proofs.Literals
import EntityQuery.Proofs.TokenRules
import EntityQuery.Proofs.NumberRules
import EntityQuery.Proofs.Cuts
import EntityQuery.Proofs.Negations
import EntityQuery.Proofs.ParserSteps
import EntityQuery.Proofs.Descent
import EntityQuery.Proofs.Termination
