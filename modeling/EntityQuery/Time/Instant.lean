import EntityQuery.Time.Calendar

/-!
# Instants

A point in time to the nanosecond, counted from 1970-01-01T00:00:00Z in days of 86400 seconds. A
leap second has no number of its own: it is the second before it with a fraction of one second or
more. `Instant.ofClock?` reads the clock and the calendar at some offset from UTC, and
`Instant.text` writes the RFC 3339 form in UTC with as many fraction digits as the fraction needs
out of none, three, six and nine.
-/

namespace EntityQuery

/-- A point in time. -/
structure Instant where
  /-- Seconds from 1970-01-01T00:00:00Z. -/
  seconds : Int
  /-- Nanoseconds into the second, from one second on inside a leap second. -/
  nanos : Nat
  /-- Only the last second of a minute is followed by a leap second. -/
  nanos_lt : nanos < 1000000000 ∨ (nanos < 2000000000 ∧ seconds % 60 = 59)
deriving DecidableEq

/-- What a calendar and a clock show. -/
structure Clock where
  /-- The date. -/
  date : Date
  /-- The hour, 0 to 23. -/
  hour : Nat
  /-- The minute, 0 to 59. -/
  minute : Nat
  /-- The second, 0 to 59, or 60 in a leap second. -/
  second : Nat
  /-- Nanoseconds into the second shown. -/
  nanos : Nat
deriving DecidableEq

namespace Clock

/-- The first and the last year that instants are kept for. -/
def firstYear : Int := -262143

@[inherit_doc firstYear]
def lastYear : Int := 262142

/-- A clock is real when its date and its time of day exist and its year is kept. -/
def isReal (c : Clock) : Bool :=
  c.date.isReal && decide (firstYear ≤ c.date.year) && decide (c.date.year ≤ lastYear) &&
    decide (c.hour ≤ 23) && decide (c.minute ≤ 59) && decide (c.second ≤ 60) &&
    decide (c.nanos < 1000000000)

/-- Whole seconds from 1970-01-01T00:00:00 on the same clock; a leap second counts as the second
before it. -/
def seconds (c : Clock) : Int :=
  c.date.toDays * 86400 + c.hour * 3600 + c.minute * 60 + (min c.second 59 : Nat)

end Clock

namespace Instant

/-- The first second of the first year that instants are kept for. -/
def firstSecond : Int := (Date.toDays ⟨Clock.firstYear, 1, 1⟩) * 86400

/-- The second after the last year that instants are kept for. -/
def endSecond : Int := (Date.toDays ⟨Clock.lastYear + 1, 1, 1⟩) * 86400

/-- The instant at which a clock that is `offset` minutes ahead of UTC shows `c`, if the clock is
real and the year in UTC is kept. -/
def ofClock? (c : Clock) (offset : Int) : Option Instant :=
  let seconds := c.seconds - 60 * offset
  let nanos := if c.second = 60 then c.nanos + 1000000000 else c.nanos
  if c.isReal ∧ firstSecond ≤ seconds ∧ seconds < endSecond then
    if h : nanos < 1000000000 ∨ (nanos < 2000000000 ∧ seconds % 60 = 59) then
      some ⟨seconds, nanos, h⟩
    else none
  else none

/-- What a clock in UTC shows. -/
def toClock (t : Instant) : Clock :=
  let time := (t.seconds % 86400).toNat
  { date := Date.ofDays (t.seconds / 86400)
    hour := time / 3600
    minute := time / 60 % 60
    second := time % 60 + t.nanos / 1000000000
    nanos := t.nanos % 1000000000 }

end Instant

namespace Clock

/-- A number with zeros before it up to a number of digits. -/
def padded (digits n : Nat) : List Char :=
  let ds := Nat.toDigits 10 n
  List.replicate (digits - ds.length) '0' ++ ds

/-- A year in four digits, or with a sign and at least four digits where four are not enough. -/
def yearText (year : Int) : List Char :=
  if 0 ≤ year ∧ year ≤ 9999 then padded 4 year.toNat
  else (if year < 0 then '-' else '+') :: padded 4 year.natAbs

/-- A date as year, month and day with hyphens. -/
def dateText (d : Date) : List Char :=
  yearText d.year ++ '-' :: (padded 2 d.month ++ '-' :: padded 2 d.day)

/-- The fraction of a second in the fewest of none, three, six and nine digits. -/
def fractionText (nanos : Nat) : List Char :=
  if nanos = 0 then []
  else if nanos % 1000000 = 0 then '.' :: padded 3 (nanos / 1000000)
  else if nanos % 1000 = 0 then '.' :: padded 6 (nanos / 1000)
  else '.' :: padded 9 nanos

/-- A clock's date and time of day without an offset. -/
def text (c : Clock) : List Char :=
  dateText c.date ++
    'T' :: (padded 2 c.hour ++ ':' :: (padded 2 c.minute ++ ':' :: (padded 2 c.second ++
      fractionText c.nanos)))

end Clock

/-- The text of an instant in UTC. -/
def Instant.text (t : Instant) : List Char := t.toClock.text ++ ['Z']

end EntityQuery
