import EntityQuery.Filter.Token
import EntityQuery.Text.Span

/-!
# Lexemes of filter text

A text is cut into lexemes from the front: blanks, tokens, and pieces that are no token. The
longest token at the front is taken; a word is a keyword where it can be one, and announces a
quoted literal where a quote follows. A literal without its closing quote and a whole number beyond
64 bits are not tokens as a whole, and any other character that begins no token stands alone.
Lexing goes on after a piece that is no token, so that `Lexeme.all` cuts every text to its end.

A literal without its closing quote reaches to the end of the text, together with the word that
announces it. This is no longest match: in `guid'0` the word alone would be a name, and in `'a''`
the first three characters would be a text.
-/

namespace EntityQuery

/-- What a piece of text is: blank space, a token, or neither. -/
inductive Lexeme.Kind
  | blank
  | token (t : Token)
  | unrecognized
deriving DecidableEq

/-- A token or a piece that is no token, with the characters it takes and where they stand. -/
structure Lexeme where
  /-- The token, if the piece is one. -/
  token? : Option Token
  /-- Its characters. -/
  chars : List Char
  /-- Where they stand. -/
  span : Span

namespace Lexeme

/-- White space between tokens. -/
def isSpace (c : Char) : Bool := c == ' ' || c == '\t' || c == '\r' || c == '\n'

/-- A name begins with a letter or an underscore; letters are those of ASCII. -/
def isNameStart (c : Char) : Bool := c.isAlpha || c == '_'

/-- A name goes on with letters, digits and underscores. -/
def isNamePart (c : Char) : Bool := isNameStart c || c.isDigit

/-- The single quote, which delimits literals. -/
def quote : Char := '\x27'

/-- What stands before the closing quote of a text literal, with doubled quotes made single, and
the number of characters up to and including that quote. -/
def textBody : List Char → Option (List Char × Nat)
  | [] => none
  | '\x27' :: '\x27' :: cs => (textBody cs).map fun (body, n) => (quote :: body, n + 2)
  | '\x27' :: _ => some ([], 1)
  | c :: cs => (textBody cs).map fun (body, n) => (c :: body, n + 1)

/-- What stands before the closing quote of a literal announced by a word, and the number of
characters up to and including that quote. -/
def literalBody (cs : List Char) : Option (List Char × Nat) :=
  let body := cs.takeWhile (· != quote)
  if body.length < cs.length then some (body, body.length + 1) else none

/-- The number that decimal digits form. -/
def numberOf (digits : List Char) : Nat := Nat.ofDigitChars 10 digits 0

/-- A whole number as a token, if it fits 64 bits with a sign. -/
def whole? (token : Int64 → Token) (digits : List Char) : Kind :=
  let n := numberOf digits
  if n ≤ Int64.maxValue.toInt.toNat then .token (token (Int64.ofNat n)) else .unrecognized

/-- The digits after a point, if a point with digits after it comes first. -/
def fractionDigits : List Char → List Char
  | '.' :: cs => cs.takeWhile Char.isDigit
  | _ => []

/-- A decimal exponent. -/
structure Exponent where
  /-- The exponent is negative. -/
  negative : Bool
  /-- Its digits. -/
  digits : List Char
  /-- The number of characters it takes. -/
  size : Nat

/-- The exponent that comes first, if one does. -/
def exponent? : List Char → Option Exponent
  | [] => none
  | e :: cs =>
    if e = 'e' ∨ e = 'E' then
      let (negative, signSize, cs) :=
        match cs with
        | '+' :: cs => (false, 1, cs)
        | '-' :: cs => (true, 1, cs)
        | _ => (false, 0, cs)
      let ds := cs.takeWhile Char.isDigit
      if ds = [] then none else some ⟨negative, ds, 1 + signSize + ds.length⟩
    else none

/-- The value of a number with digits before and after the point and an exponent. -/
def doubleOf (whole fraction : List Char) (exponent? : Option Exponent) : Binary64 :=
  let n : Int := exponent?.elim 0 fun e => numberOf e.digits
  let exponent := if exponent?.any (·.negative) then -n else n
  Binary64.ofDecimal (numberOf (whole ++ fraction)) (exponent - fraction.length)

/-- Whether a letter comes first, in either case. -/
def beginsWithLetter (lower upper : Char) (cs : List Char) : Bool :=
  cs.head? == some lower || cs.head? == some upper

/-- The number that begins with a digit: what it is, and how many characters after the digit it
takes. A fraction or an exponent makes it a double, which a final `d` may mark; `m` makes it a
decimal, unless it has an exponent, and `l` makes a whole number a long one. -/
def number (first : Char) (cs : List Char) : Kind × Nat :=
  let more := cs.takeWhile Char.isDigit
  let digits := first :: more
  let afterWhole := cs.drop more.length
  let fraction := fractionDigits afterWhole
  let fractionSize := if fraction = [] then 0 else fraction.length + 1
  let afterFraction := afterWhole.drop fractionSize
  let size := more.length + fractionSize
  if beginsWithLetter 'm' 'M' afterFraction then
    let text := if fraction = [] then digits else digits ++ '.' :: fraction
    (.token (.decimal (String.ofList text)), size + 1)
  else
    match exponent? afterFraction with
    | some e =>
      let mark := if beginsWithLetter 'd' 'D' (afterFraction.drop e.size) then 1 else 0
      (.token (.double (doubleOf digits fraction (some e))), size + e.size + mark)
    | none =>
      if fraction ≠ [] then
        let mark := if beginsWithLetter 'd' 'D' afterFraction then 1 else 0
        (.token (.double (doubleOf digits fraction none)), size + mark)
      else if beginsWithLetter 'l' 'L' afterFraction then (whole? .long digits, size + 1)
      else (whole? .int digits, size)

/-- The token of a word: a keyword, or else a name. -/
def wordToken (word : String) : Token :=
  match Keyword.ofSpelling? word with
  | some k => .keyword k
  | none => .ident word

/-- The word that begins with a character, with the literal it announces if a quote follows. -/
def word (first : Char) (cs : List Char) : Kind × Nat :=
  let more := cs.takeWhile isNamePart
  let name := String.ofList (first :: more)
  let after := cs.drop more.length
  match LiteralKind.ofWord? name, after with
  | some kind, '\x27' :: rest =>
    match literalBody rest with
    | some (body, n) => (.token (.quoted kind (String.ofList body)), more.length + 1 + n)
    -- The word goes with the literal and is not read as a name.
    | none => (.unrecognized, cs.length)
  | _, _ => (.token (wordToken name), more.length)

/-- What a nonempty text begins with, and how many characters after the first one it takes. -/
def kindAt (c : Char) (cs : List Char) : Kind × Nat :=
  if isSpace c then (.blank, (cs.takeWhile isSpace).length)
  else if c = quote then
    match textBody cs with
    | some (body, n) => (.token (.text (String.ofList body)), n)
    | none => (.unrecognized, cs.length)
  else if c.isDigit then number c cs
  else if isNameStart c then word c cs
  else
    match Symbol.ofChar? c with
    | some s => (.token (.symbol s), 0)
    | none => (.unrecognized, 0)

/-- The lexemes of a text that begins at a byte offset; blanks are left out. -/
def startingAt (offset : Nat) : List Char → List Lexeme
  | [] => []
  | c :: cs =>
    let (kind, n) := kindAt c cs
    let chars := c :: cs.take n
    let stop := offset + Text.byteLength chars
    let rest := Lexeme.startingAt stop (cs.drop n)
    match kind with
    | .blank => rest
    | .token t => ⟨some t, chars, ⟨offset, stop⟩⟩ :: rest
    | .unrecognized => ⟨none, chars, ⟨offset, stop⟩⟩ :: rest
termination_by cs => cs.length
decreasing_by simp only [List.length_drop, List.length_cons]; omega

/-- The lexemes of a text. -/
def all (source : String) : List Lexeme := Lexeme.startingAt 0 source.toList

end Lexeme

end EntityQuery
