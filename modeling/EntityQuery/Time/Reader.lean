import EntityQuery.Text.Blank
import EntityQuery.Time.Instant

/-!
# Reading date-time text

Two forms carry an offset from UTC: the strict one of RFC 3339 with fields of fixed width, and a
lenient one that also takes blanks around the fields, longer years and `UTC`. Three forms carry
none and are taken as UTC: to the second with an optional fraction, to the minute, and the date
alone. Their fields may have fewer digits, and blanks may stand before a number.

`Instant.ofText?` is the reading of a date-time literal: the first of the strict form and the
three without an offset that takes the whole text. `Instant.ofLenientText?` reads the lenient form
alone.
-/

namespace EntityQuery

/-- A reader takes a value off the front of a text, or fails. -/
abbrev TextReader := StateT (List Char) Option

namespace TextReader

/-- Reads one character. -/
def char (expected : Char) : TextReader Unit := fun
  | [] => none
  | c :: cs => if c = expected then some ((), cs) else none

/-- Reads one character of several. -/
def oneOf (expected : List Char) : TextReader Char := fun
  | [] => none
  | c :: cs => if c ∈ expected then some (c, cs) else none

/-- Reads over blanks. -/
def blanks : TextReader Unit := fun cs => some ((), Text.trimStart cs)

/-- Reads a number of one to `most` digits, as many as there are. -/
def digitsUpTo (most : Nat) : TextReader Nat := fun cs =>
  let ds := (cs.take most).takeWhile Char.isDigit
  if ds = [] then none else some (Nat.ofDigitChars 10 ds 0, cs.drop ds.length)

/-- Reads a number of one or more digits. -/
def allDigits : TextReader Nat := fun cs =>
  let ds := cs.takeWhile Char.isDigit
  if ds = [] then none else some (Nat.ofDigitChars 10 ds 0, cs.drop ds.length)

/-- Reads a number of exactly `count` digits. -/
def digits (count : Nat) : TextReader Nat := fun cs =>
  let ds := cs.take count
  if ds.length = count ∧ ds.all Char.isDigit then
    some (Nat.ofDigitChars 10 ds 0, cs.drop count)
  else none

/-- Reads a fraction of a second, a point and one or more digits, as nanoseconds. Digits after the
ninth are dropped, and a text that does not begin with a point has the fraction zero. -/
def fraction : TextReader Nat := fun
  | '.' :: cs =>
    let ds := cs.takeWhile Char.isDigit
    if ds = [] then none
    else
      let kept := ds.take 9
      some (Nat.ofDigitChars 10 kept 0 * Nat.pow 10 (9 - kept.length), cs.drop ds.length)
  | cs => some (0, cs)

/-- Whether the rest of a text begins with a character. -/
def startsWith (c : Char) : TextReader Bool := fun cs => some (cs.head? == some c, cs)

/-- Reads a year after optional blanks: up to four digits, or a sign and any number of digits. -/
def year : TextReader Int := do
  blanks
  if ← startsWith '-' then
    char '-'
    let n ← allDigits
    return -n
  else if ← startsWith '+' then
    char '+'
    let n ← allDigits
    return n
  else
    let n ← digitsUpTo 4
    return n

/-- Reads a number of one or two digits after optional blanks. -/
def field : TextReader Nat := do
  blanks
  digitsUpTo 2

/-- Reads what stands between the hours and the minutes of an offset and the minutes themselves,
after a sign. The offset is in minutes. -/
def signedOffset (separator : TextReader Unit) : TextReader Int := do
  let sign ← oneOf ['+', '-', '\u2212']
  let hours ← digits 2
  separator
  let minutes ← digits 2
  if 59 < minutes ∨ 23 < hours then failure
  let offset : Int := 60 * hours + minutes
  return if sign = '+' then offset else -offset

/-- Reads an offset from UTC in minutes: `Z` in either case, or a sign, hours and minutes. -/
def offset (separator : TextReader Unit) : TextReader Int := do
  if ← startsWith 'Z' then
    char 'Z'
    return 0
  else if ← startsWith 'z' then
    char 'z'
    return 0
  else signedOffset separator

/-- Reads the strict form: every field has its full width. -/
def strict : TextReader (Clock × Int) := do
  let year ← digits 4
  char '-'
  let month ← digits 2
  char '-'
  let day ← digits 2
  let _ ← oneOf ['T', 't', ' ']
  let hour ← digits 2
  char ':'
  let minute ← digits 2
  char ':'
  let second ← digits 2
  let nanos ← fraction
  let offset ← offset (char ':')
  return (⟨⟨year, month, day⟩, hour, minute, second, nanos⟩, offset)

/-- Reads over colons and blanks. -/
def colonsAndBlanks : TextReader Unit := fun cs =>
  some ((), cs.dropWhile fun c => c == ':' || Text.isBlank c)

/-- Reads the offset of the lenient form, which may also be `UTC` in any case. -/
def lenientOffset : TextReader Int := fun cs =>
  if (cs.take 3).map Char.toUpper = ['U', 'T', 'C'] then some (0, cs.drop 3)
  else offset colonsAndBlanks cs

/-- Reads the lenient form: blanks may stand around the fields. -/
def lenient : TextReader (Clock × Int) := do
  let year ← year
  blanks
  char '-'
  let month ← field
  blanks
  char '-'
  let day ← field
  let _ ← oneOf ['T', 't', ' ']
  let hour ← field
  blanks
  char ':'
  let minute ← field
  blanks
  char ':'
  let second ← field
  let nanos ← fraction
  blanks
  let offset ← lenientOffset
  blanks
  return (⟨⟨year, month, day⟩, hour, minute, second, nanos⟩, offset)

/-- Reads a date without an offset. -/
def date : TextReader Date := do
  let year ← year
  char '-'
  let month ← field
  char '-'
  let day ← field
  return ⟨year, month, day⟩

/-- Reads a date and a time of day to the minute. -/
def toMinute : TextReader Clock := do
  let date ← date
  char 'T'
  let hour ← field
  char ':'
  let minute ← field
  return ⟨date, hour, minute, 0, 0⟩

/-- Reads a date and a time of day to the second, with an optional fraction. -/
def toSecond : TextReader Clock := do
  let clock ← toMinute
  char ':'
  let second ← field
  let nanos ← fraction
  return { clock with second := second, nanos := nanos }

/-- What a reader makes of a whole text. -/
def whole {α : Type} (reader : TextReader α) (cs : List Char) : Option α :=
  match reader cs with
  | some (a, []) => some a
  | _ => none

end TextReader

namespace Instant

/-- The instant of a clock in UTC. -/
def ofUtc? (c : Clock) : Option Instant := ofClock? c 0

/-- The instant that a date-time literal names: the first of the strict form, the form to the
second, the form to the minute and the date alone that reads the whole text as a real time. -/
def ofText? (cs : List Char) : Option Instant :=
  ((TextReader.strict.whole cs).bind fun (c, offset) => ofClock? c offset).or <|
    ((TextReader.toSecond.whole cs).bind ofUtc?).or <|
      ((TextReader.toMinute.whole cs).bind ofUtc?).or <|
        (TextReader.date.whole cs).bind fun d => ofUtc? ⟨d, 0, 0, 0, 0⟩

/-- The instant that a text of the lenient form names. -/
def ofLenientText? (cs : List Char) : Option Instant :=
  (TextReader.lenient.whole cs).bind fun (c, offset) => ofClock? c offset

end Instant

end EntityQuery
