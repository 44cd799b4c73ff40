/-!
# The Gregorian calendar

Dates of the proleptic Gregorian calendar, with a year 0 and negative years, and their number of
days from 1970-01-01. Both directions count years from March, so that the leap day is the last day
of its year and a month's length follows one linear rule, and both work inside one cycle of 400
years, which has 146097 days.
-/

namespace EntityQuery

/-- A year, a month from 1 and a day from 1. -/
structure Date where
  /-- The year; 0 stands before 1. -/
  year : Int
  /-- The month, 1 to 12. -/
  month : Nat
  /-- The day of the month, from 1. -/
  day : Nat
deriving DecidableEq

namespace Date

/-- A year is a leap year when four divides it, except that of those which hundred divides only
the ones that four hundred divides are. -/
def isLeapYear (year : Int) : Bool := year % 4 == 0 && (year % 100 != 0 || year % 400 == 0)

/-- The number of days in a month. -/
def daysInMonth (year : Int) (month : Nat) : Nat :=
  if month = 2 then if isLeapYear year then 29 else 28
  else if month = 4 ∨ month = 6 ∨ month = 9 ∨ month = 11 then 30
  else 31

/-- A date is real when its month and its day exist. -/
def isReal (d : Date) : Bool :=
  1 ≤ d.month && d.month ≤ 12 && 1 ≤ d.day && d.day ≤ daysInMonth d.year d.month

/-- Days of a cycle of 400 years. -/
def cycleDays : Int := 146097

/-- The day number of 1970-01-01 when days are counted from 0000-03-01. -/
def epochDay : Int := 719468

/-- The days from 1970-01-01 to a date. -/
def toDays (d : Date) : Int :=
  let year := if d.month ≤ 2 then d.year - 1 else d.year
  let cycle := year / 400
  let yearOfCycle := year % 400
  let month : Int := if d.month ≤ 2 then d.month + 9 else d.month - 3
  let dayOfYear := (153 * month + 2) / 5 + d.day - 1
  cycle * cycleDays + (365 * yearOfCycle + yearOfCycle / 4 - yearOfCycle / 100 + dayOfYear) -
    epochDay

/-- The date a number of days from 1970-01-01. -/
def ofDays (days : Int) : Date :=
  let day := days + epochDay
  let cycle := day / cycleDays
  let dayOfCycle := day % cycleDays
  let yearOfCycle :=
    (dayOfCycle - dayOfCycle / 1460 + dayOfCycle / 36524 - dayOfCycle / 146096) / 365
  let dayOfYear := dayOfCycle - (365 * yearOfCycle + yearOfCycle / 4 - yearOfCycle / 100)
  let month := (5 * dayOfYear + 2) / 153
  let dayOfMonth := dayOfYear - (153 * month + 2) / 5 + 1
  let year := cycle * 400 + yearOfCycle
  if month < 10 then ⟨year, (month + 3).toNat, dayOfMonth.toNat⟩
  else ⟨year + 1, (month - 9).toNat, dayOfMonth.toNat⟩

end Date

end EntityQuery
