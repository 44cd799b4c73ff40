import EntityQuery.Command.Request
import EntityQuery.Document.Config
import EntityQuery.Document.Schema

/-!
# Command line

A command line is a list of options, each followed by its value. It names the documents of the
schema and of the settings, and the rest is a request. The answer goes to the standard output; an
error goes to the standard error with exit code one.
-/

namespace EntityQuery

/-- What a command line asks for. -/
structure CommandLine where
  /-- The path of the schema. -/
  schema : String
  /-- The path of the settings; without one the defaults hold. -/
  config? : Option String
  /-- The request. -/
  request : Request

/-- What a run leaves behind. -/
structure Outcome where
  /-- The exit code. -/
  code : UInt8
  /-- The standard output. -/
  output : String
  /-- The standard error. -/
  errors : String

namespace CommandLine

/-- The options and values of a command line so far. -/
structure Pieces where
  /-- The path of the schema. -/
  schema? : Option String := none
  /-- The path of the settings. -/
  config? : Option String := none
  /-- The request. -/
  request : Request := {}

/-- Takes one option with its value. -/
def Pieces.add (p : Pieces) (option value : String) : Option Pieces :=
  let r := p.request
  match option with
  | "-s" | "--schema" => some { p with schema? := some value }
  | "--config" => some { p with config? := some value }
  | "-e" | "--entity" => some { p with request := { r with entity? := some value } }
  | "--filter" => some { p with request := { r with filter? := some value } }
  | "--orderby" => some { p with request := { r with orderBy? := some value } }
  | "--select" => some { p with request := { r with select? := some value } }
  | "--expand" => some { p with request := { r with expand? := some value } }
  | "--top" => some { p with request := { r with top? := some value } }
  | "--skip" => some { p with request := { r with skip? := some value } }
  | "--format" =>
    (ReportFormat.ofName? value).map fun format => { p with request := { r with format } }
  | _ => none

/-- Takes options with their values from left to right. -/
def Pieces.addAll (p : Pieces) : List String → Option Pieces
  | [] => some p
  | [_] => none
  | option :: value :: rest => (p.add option value).bind fun p => p.addAll rest

/-- What a list of arguments asks for; a schema must be named. -/
def ofArguments? (arguments : List String) : Option CommandLine := do
  let p ← Pieces.addAll {} arguments
  let schema ← p.schema?
  return ⟨schema, p.config?, p.request⟩

/-- How command lines are written. -/
def usage : String :=
  "usage: --schema FILE [--config FILE] [--entity NAME] [--filter TEXT] [--orderby TEXT] " ++
    "[--select TEXT] [--expand TEXT] [--top N] [--skip N] [--format table|json]"

/-- The reason why a file that does not exist cannot be read. -/
def missingFile : String := "No such file or directory (os error 2)"

/-- The answer to a command line, where `read` gives the content of a file or the reason why there
is none. The schema is looked at before the settings. -/
def answer {m : Type → Type} [Monad m] (read : String → m (Except String String))
    (line : CommandLine) : ExceptT RequestError m String := do
  let content (path : String) : ExceptT RequestError m String :=
    ExceptT.mk do return (← read path).mapError (.unreadable path)
  let schema ← (Schema.ofText (← content line.schema)).mapError
    fun e => RequestError.plan (.invalidSchema e)
  let config ← match line.config? with
    | none => pure Config.default
    | some path =>
      match Config.ofText? (← content path) with
      | some c => pure c
      | none => throw .malformedConfig
  line.request.answer schema config

end CommandLine

/-- The outcome of an answer. -/
def Outcome.ofAnswer : Except RequestError String → Outcome
  | .ok text => ⟨0, text ++ "\n", ""⟩
  | .error e => ⟨1, "", "Error: " ++ e.message ++ "\n"⟩

end EntityQuery
