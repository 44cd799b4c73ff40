import EntityQuery.Filter.ParseError

/-!
# Looking ahead

A lexer with one token of lookahead keeps what it was asked to look at until this is taken. What it
keeps is what comes next, which may be the end of the text, so that having looked at the end is
something else than not having looked yet.
-/

namespace EntityQuery

/-- A lexer with one token of lookahead. -/
structure Lookahead where
  /-- The lexer behind, which has gone past what was looked at. -/
  lexer : Lexer
  /-- What was looked at and is not taken yet, if anything was. -/
  peeked? : Option (Option (Except ParseError (Located Token)))

namespace Lookahead

/-- A lexer with lookahead at the start of a text. -/
def ofSource (source : String) : Lookahead := ⟨.ofSource source, none⟩

/-- The whole text. -/
def source (l : Lookahead) : String := l.lexer.source

/-- The next token or error, if there is one, without taking it. -/
def peek (l : Lookahead) : Option (Except ParseError (Located Token)) × Lookahead :=
  match l.peeked? with
  | some item? => (item?, l)
  | none =>
    let (item?, lexer) := l.lexer.next
    (item?, ⟨lexer, some item?⟩)

/-- Takes the next token or error, if there is one. -/
def next (l : Lookahead) : Option (Except ParseError (Located Token)) × Lookahead :=
  match l.peeked? with
  | some item? => (item?, { l with peeked? := none })
  | none =>
    let (item?, lexer) := l.lexer.next
    (item?, ⟨lexer, none⟩)

/-- Takes the next token or error as one step of an iteration over all of them. -/
def iterate (l : Lookahead) : Option (Except ParseError (Located Token)) × Lookahead := l.next

end Lookahead

end EntityQuery
