/-!
# Positions in a text

A span is a range of UTF-8 byte offsets, a position is a line and a column counted in characters
from 1. `Position.ofOffset` takes an offset to the position of the character that begins there:
it starts at line 1, column 1 and advances over every character that begins before the offset.
-/

namespace EntityQuery

/-- A range of UTF-8 byte offsets: `start` is inside, `stop` is not. -/
structure Span where
  /-- Offset of the first byte. -/
  start : Nat
  /-- Offset after the last byte. -/
  stop : Nat
deriving DecidableEq

namespace Span

/-- The smallest span that covers both spans. -/
def merge (a b : Span) : Span := ⟨min a.start b.start, max a.stop b.stop⟩

/-- The number of bytes in a span. -/
def size (s : Span) : Nat := s.stop - s.start

/-- A span is empty when it stops where it starts. -/
def isEmpty (s : Span) : Bool := s.start == s.stop

end Span

/-- A value together with the span of the text that it was read from. -/
structure Located (α : Type) where
  /-- The value. -/
  value : α
  /-- Where it stands. -/
  span : Span
deriving DecidableEq

namespace Text

/-- The number of bytes that characters take in UTF-8. -/
def byteLength : List Char → Nat
  | [] => 0
  | c :: cs => c.utf8Size + byteLength cs

/-- The characters of a text that begin before a byte offset. -/
def charsBefore : List Char → Nat → List Char
  | [], _ => []
  | c :: cs, offset => if offset = 0 then [] else c :: charsBefore cs (offset - c.utf8Size)

/-- The lines of a text. A line ends at `\n` or `\r\n`, which do not belong to it, and an end at
the very end of the text opens no further line. -/
def lines : List Char → List (List Char)
  | [] => []
  | '\n' :: cs => [] :: lines cs
  | '\r' :: '\n' :: cs => [] :: lines cs
  | c :: cs =>
    match lines cs with
    | [] => [[c]]
    | l :: ls => (c :: l) :: ls

end Text

/-- A line and a column, both counted from 1. -/
structure Position where
  /-- One more than the line ends passed. -/
  line : Nat
  /-- One more than the characters passed on the line. -/
  column : Nat
deriving DecidableEq

namespace Position

/-- The position of the first character. -/
def first : Position := ⟨1, 1⟩

/-- The position after a character: a line end opens the next line, and any other character takes
one column. -/
def advance (p : Position) (c : Char) : Position :=
  if c = '\n' then ⟨p.line + 1, 1⟩ else ⟨p.line, p.column + 1⟩

/-- The position of the character that begins at a byte offset of a text. -/
def ofOffset (text : List Char) (offset : Nat) : Position :=
  (Text.charsBefore text offset).foldl advance first

end Position

end EntityQuery
