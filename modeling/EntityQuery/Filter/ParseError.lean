import EntityQuery.Filter.Diagnostic
import EntityQuery.Filter.Lexeme

/-!
# Errors of parsing

What can be wrong with the form of a filter or a sort order, with its message and where it stands.
-/

namespace EntityQuery

/-- What is wrong with the form of a text. -/
inductive ParseError.Cause
  /-- A piece of the text is no token. -/
  | unrecognized (chars : List Char)
  /-- The text ends where something has to follow. -/
  | unexpectedEnd
  /-- A token stands where an expression has to begin. -/
  | notAnExpression (found : Token)
  /-- A token stands where the name of a property has to. -/
  | notAProperty (found : Token)
  /-- A token stands where a closing parenthesis has to. -/
  | notClosed (found : Token)
  /-- A token follows a complete expression. -/
  | trailing (found : Token)
  /-- Expressions are nested deeper than allowed. -/
  | tooDeep (limit : Nat)

/-- An error of parsing with the span it is about. -/
structure ParseError where
  /-- What is wrong. -/
  cause : ParseError.Cause
  /-- Where. -/
  span : Span

namespace ParseError

/-- The message of an error. -/
def message (e : ParseError) : String :=
  match e.cause with
  | .unrecognized chars => "unrecognized input '" ++ String.ofList chars ++ "'"
  | .unexpectedEnd => "unexpected end of input"
  | .notAnExpression found => "expected expression, found " ++ found.describe
  | .notAProperty found => "expected property name, found " ++ found.describe
  | .notClosed found => "expected " ++ Symbol.close.name ++ ", found " ++ found.describe
  | .trailing found => "unexpected " ++ found.describe ++ " after expression"
  | .tooDeep limit => "expression nested deeper than " ++ toString limit ++ " levels"

/-- The advice that comes with an error. -/
def hint? (e : ParseError) : Option String :=
  match e.cause with
  | .trailing _ => some "combine conditions with 'and' or 'or'"
  | _ => none

/-- The diagnostic of an error. -/
def diagnostic (e : ParseError) : Diagnostic := ⟨none, e.message, e.span, e.hint?⟩

end ParseError

/-- A token with its span, or the error that a lexeme is. -/
def Lexeme.token (l : Lexeme) : Except ParseError (Located Token) :=
  match l.token? with
  | some t => .ok ⟨t, l.span⟩
  | none => .error ⟨.unrecognized l.chars, l.span⟩

/-- The tokens of a text, or the error of its first piece that is no token. -/
def tokenize (source : String) : Except ParseError (List (Located Token)) :=
  (Lexeme.all source).mapM Lexeme.token

/-- A lexer at work on a text: the lexemes that are still to come. Looking at the next one leaves
it there. -/
structure Lexer where
  /-- The whole text. -/
  source : String
  /-- The lexemes to come. -/
  rest : List Lexeme

namespace Lexer

/-- A lexer at the start of a text. -/
def ofSource (source : String) : Lexer := ⟨source, Lexeme.all source⟩

/-- The next token or error, if there is one, without taking it. -/
def peek (l : Lexer) : Option (Except ParseError (Located Token)) := l.rest.head?.map Lexeme.token

/-- The next token or error, if there is one, and the lexer after it. -/
def next (l : Lexer) : Option (Except ParseError (Located Token)) × Lexer :=
  (l.peek, { l with rest := l.rest.tail })

end Lexer

end EntityQuery
