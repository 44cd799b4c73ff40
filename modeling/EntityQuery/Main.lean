import EntityQuery.Command.Line

/-!
# The program

Reads the documents that the command line names and writes the answer.
-/

namespace EntityQuery

/-- Why a file could not be read. -/
def unreadableReason : IO.Error → String
  | .noFileOrDirectory .. => CommandLine.missingFile
  | .permissionDenied .. => "Permission denied (os error 13)"
  | .inappropriateType .. => "Is a directory (os error 21)"
  | e => toString e

/-- The content of a file, or the reason why there is none. -/
def readDocument (path : String) : IO (Except String String) := do
  try
    let bytes ← IO.FS.readBinFile path
    match String.fromUTF8? bytes with
    | some text => return .ok text
    | none => return .error "stream did not contain valid UTF-8"
  catch e => return .error (unreadableReason e)

end EntityQuery

open EntityQuery in
/-- Answers a command line. -/
def main (arguments : List String) : IO UInt32 := do
  match CommandLine.ofArguments? arguments with
  | none =>
    IO.eprintln CommandLine.usage
    return 2
  | some line =>
    let outcome := Outcome.ofAnswer (← (line.answer readDocument).run)
    IO.print outcome.output
    IO.eprint outcome.errors
    return outcome.code.toUInt32
