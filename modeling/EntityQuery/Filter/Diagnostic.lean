import EntityQuery.Text.Span

/-!
# Diagnostics with source context

A diagnostic names a mistake in a text. It is rendered as a line with the message, the position,
the line of the text with a number before it, and a line of marks under the place: a caret under
its first character and a tilde for each further byte up to the end of the line.
-/

namespace EntityQuery

/-- A mistake in a text. -/
structure Diagnostic where
  /-- What kind of mistake it is, where kinds are told apart. -/
  kind? : Option String
  /-- What is wrong. -/
  message : String
  /-- Where. -/
  span : Span
  /-- What to do about it, where there is an advice. -/
  hint? : Option String

namespace Diagnostic

/-- A number with blanks before it up to a width of three. -/
def gutter (n : Nat) : String :=
  let digits := toString n
  String.ofList (List.replicate (3 - digits.length) ' ') ++ digits

/-- The marks under a line for a span that begins at a column: the caret stands under the column,
and the marks end with the line. -/
def marks (line : List Char) (column : Nat) (span : Span) : String :=
  let tildes := min (span.size - 1) (line.length - column)
  String.ofList (List.replicate column ' ' ++ '^' :: List.replicate tildes '~')

/-- The position of a span and, if its line exists, the line with marks under it. -/
def snippet (source : List Char) (span : Span) : String :=
  let position := Position.ofOffset source span.start
  let place :=
    "  --> line " ++ toString position.line ++ ":" ++ toString position.column ++ "\n"
  match (Text.lines source)[position.line - 1]? with
  | none => place
  | some line =>
    place ++ "   |\n" ++ gutter position.line ++ "| " ++ String.ofList line ++ "\n   |" ++
      marks line position.column span ++ "\n"

/-- A diagnostic with the place in the source that it is about. -/
def render (d : Diagnostic) (source : String) : String :=
  let heading := d.kind?.elim "error" fun kind => "error[" ++ kind ++ "]"
  let hint := d.hint?.elim "" fun hint => "   = hint: " ++ hint ++ "\n"
  heading ++ ": " ++ d.message ++ "\n" ++ snippet source.toList d.span ++ hint

end Diagnostic

end EntityQuery
