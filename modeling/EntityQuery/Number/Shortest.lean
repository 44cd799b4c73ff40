import EntityQuery.Number.Binary64

/-!
# Shortest decimal text of a double-precision number

A positive finite number is written with the fewest decimal digits that read back as the same
number, and among those with the digits closest to it. `Binary64.shortest` finds them in exact
arithmetic: for one digit, two digits and so on it looks at the two neighbours of the number on
that decimal grid, and the first grid with a neighbour inside the interval of values that round to
the number wins. Two texts are made of the digits: `positional`, without an exponent, and
`scientific`, which turns to an exponent for very large and very small numbers.
-/

namespace EntityQuery

/-- Decimal digits and the exponent of ten of the last one. -/
structure Decimal where
  /-- The digits as a number. -/
  digits : Nat
  /-- The exponent of ten. -/
  exponent : Int
deriving DecidableEq

namespace Binary64

/-- The values that round to a positive finite number, as numerators over the common denominator
`2 ^ 1076`: the ends of the interval, the number itself, and whether the ends belong to it. -/
structure Interval where
  /-- The lower end. -/
  low : Nat
  /-- The number. -/
  middle : Nat
  /-- The upper end. -/
  high : Nat
  /-- The ends round to the number when its significand is even. -/
  closed : Bool

/-- The interval of a number: half a unit of the last place to either side, a quarter below a
power of two, where the units get smaller. -/
def interval (x : Binary64) : Interval :=
  let m := x.significand
  let below := if m = leadingOne ∧ 0 < x.shift then 1 else 2
  ⟨(4 * m - below) <<< x.shift, (4 * m) <<< x.shift, (4 * m + 2) <<< x.shift, m % 2 = 0⟩

/-- The denominator of an interval's numerators. -/
def intervalDen : Nat := 1 <<< 1076

/-- Whether `num / den` lies in an interval with numerators over `intervalDen`. -/
def Interval.contains (i : Interval) (num den : Nat) : Bool :=
  let lowSide := i.low * den
  let value := num * intervalDen
  let highSide := i.high * den
  (lowSide < value && value < highSide) || (i.closed && (value == lowSide || value == highSide))

/-- The point of the grid of multiples of `10 ^ exponent` that lies in the interval and closest to
its number, if one does. Of two equally close points it is the greater. -/
def gridPoint? (i : Interval) (exponent : Int) : Option Nat :=
  let up := Nat.pow 10 exponent.toNat
  let down := Nat.pow 10 (-exponent).toNat
  let floor := i.middle * down / (intervalDen * up)
  let ceiling := floor + 1
  match i.contains (floor * up) down, i.contains (ceiling * up) down with
  | false, false => none
  | true, false => some floor
  | false, true => some ceiling
  | true, true =>
    let twice := (2 * floor + 1) * up * intervalDen
    if 2 * i.middle * down < twice then some floor else some ceiling

/-- The first grid with a point in the interval, from the coarsest on, of `count` grids. -/
def searchGrids (i : Interval) : Nat → Int → Option Decimal
  | 0, _ => none
  | count + 1, exponent =>
    match gridPoint? i exponent with
    | some digits => some ⟨digits, exponent⟩
    | none => searchGrids i count (exponent - 1)

/-- A decimal without zeros at the end of its digits; `steps` bounds the number of zeros. -/
def Decimal.strip : Nat → Decimal → Decimal
  | 0, d => d
  | steps + 1, d =>
    if d.digits ≠ 0 ∧ d.digits % 10 = 0 then strip steps ⟨d.digits / 10, d.exponent + 1⟩ else d

/-- The fewest digits that read back as a positive finite number. The first exponent is at least
that of the number's leading digit, and seventeen digits always suffice. -/
def shortest (x : Binary64) : Decimal :=
  let i := x.interval
  let top : Int := (Nat.log2 i.middle : Int) - 1076
  let start := if 0 ≤ top then top / 3 + 1 else top / 4 + 1
  match searchGrids i 400 start with
  | some d => Decimal.strip 20 d
  | none => ⟨0, 0⟩

/-- Zeros in a row. -/
def zeros (n : Nat) : List Char := List.replicate n '0'

/-- The sign of a number's text. -/
def signText (x : Binary64) : List Char := if x.isNegative then ['-'] else []

/-- The text of a number without an exponent. A fraction is shown only where there is one. -/
def positional (x : Binary64) : List Char :=
  if x.isInfinite then x.signText ++ ['i', 'n', 'f']
  else if !x.isFinite then ['N', 'a', 'N']
  else if x.magnitude = 0 then x.signText ++ ['0']
  else
    let d := x.shortest
    let ds := Nat.toDigits 10 d.digits
    let after := (-d.exponent).toNat
    x.signText ++
      if 0 ≤ d.exponent then ds ++ zeros d.exponent.toNat
      else if after < ds.length then
        ds.take (ds.length - after) ++ '.' :: ds.drop (ds.length - after)
      else '0' :: '.' :: (zeros (after - ds.length) ++ ds)

/-- The text of a finite number that always shows a fraction or an exponent: positional where the
first digit stands from five places after the point to sixteen before it, and otherwise one digit
before the point and an exponent. -/
def scientific (x : Binary64) : List Char :=
  if x.magnitude = 0 then x.signText ++ ['0', '.', '0']
  else
    let d := x.shortest
    let ds := Nat.toDigits 10 d.digits
    let point : Int := ds.length + d.exponent
    let exponentText := 'e' :: (toString (point - 1)).toList
    x.signText ++
      if 0 ≤ d.exponent ∧ point ≤ 16 then ds ++ zeros d.exponent.toNat ++ ['.', '0']
      else if 0 < point ∧ point ≤ 16 then ds.take point.toNat ++ '.' :: ds.drop point.toNat
      else if -5 < point ∧ point ≤ 0 then '0' :: '.' :: (zeros (-point).toNat ++ ds)
      else if ds.length = 1 then ds ++ exponentText
      else ds.take 1 ++ '.' :: (ds.drop 1 ++ exponentText)

end Binary64

end EntityQuery
