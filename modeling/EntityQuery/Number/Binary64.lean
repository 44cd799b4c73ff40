/-!
# Double-precision numbers

A number of the IEEE 754 format `binary64`, held as its 64 bits: the sign, eleven bits of exponent
and 52 of fraction. A finite number is `significand * 2 ^ (shift - 1074)` up to its sign.
`nearest` rounds a positive fraction of natural numbers to the closest number of the format, a tie
going to the even significand; every conversion from digits or integers goes through it.
-/

namespace EntityQuery

/-- A double-precision number by its bits. -/
structure Binary64 where
  /-- Sign, exponent and fraction, from the highest bit on. -/
  bits : UInt64
deriving DecidableEq

namespace Binary64

/-- The bit of the sign. -/
def signBit : Nat := 0x8000000000000000

/-- The magnitude of infinity; greater ones are not numbers. -/
def infinityBits : Nat := 0x7FF0000000000000

/-- The leading one of a significand, which is also the unit of the exponent field. -/
def leadingOne : Nat := 0x10000000000000

/-- The bits without the sign. -/
def magnitude (x : Binary64) : Nat := x.bits.toNat % signBit

/-- A number is negative when its sign bit is set, also when it is zero. -/
def isNegative (x : Binary64) : Bool := signBit ≤ x.bits.toNat

/-- A number is finite when its exponent is not the highest. -/
def isFinite (x : Binary64) : Bool := x.magnitude < infinityBits

/-- Infinity, of either sign. -/
def isInfinite (x : Binary64) : Bool := x.magnitude == infinityBits

/-- A number of a magnitude below the sign bit. -/
def ofMagnitude (n : Nat) : Binary64 := ⟨n.toUInt64⟩

/-- A number with the opposite sign. -/
def neg (x : Binary64) : Binary64 := ⟨x.bits ^^^ signBit.toUInt64⟩

/-- The exponent field. -/
def exponentField (x : Binary64) : Nat := x.magnitude / leadingOne

/-- The significand of a finite number: the fraction, with the leading one that the format leaves
out when the exponent field is not zero. -/
def significand (x : Binary64) : Nat :=
  if x.exponentField = 0 then x.magnitude else leadingOne + x.magnitude % leadingOne

/-- The exponent of a finite number's significand, counted from `-1074`. -/
def shift (x : Binary64) : Nat := x.exponentField - 1

/-- The quotient of two natural numbers rounded to the closest, a tie going to the even one. -/
def roundDiv (num den : Nat) : Nat :=
  let q := num / den
  let r := num % den
  if 2 * r < den then q else if den < 2 * r then q + 1 else q + q % 2

/-- The number of the format closest to `num / den`, a tie going to the even significand. What is
too large becomes infinity. The significand and the exponent add up to the bits, so that a
significand rounded up to `2 ^ 53` moves to the next exponent by itself. -/
def nearest (num den : Nat) : Binary64 :=
  let guess : Int := (Nat.log2 num : Int) - Nat.log2 den
  let top : Int := if num <<< (-guess).toNat < den <<< guess.toNat then guess - 1 else guess
  let unit : Int := max (top - 52) (-1074)
  let m := roundDiv (num <<< (-unit).toNat) (den <<< unit.toNat)
  let bits := (unit + 1074).toNat * leadingOne + m
  ofMagnitude (if num = 0 then 0 else min bits infinityBits)

/-- The closest number to `digits * 10 ^ exponent`. Exponents far outside the range of the format
are answered without writing out the power of ten. -/
def ofDecimal (digits : Nat) (exponent : Int) : Binary64 :=
  let top := (Nat.log2 digits : Int) / 3 + exponent
  if digits = 0 ∨ top < -400 then ofMagnitude 0
  else if 400 < exponent then ofMagnitude infinityBits
  else nearest (digits * Nat.pow 10 exponent.toNat) (Nat.pow 10 (-exponent).toNat)

/-- The closest number to an integer. -/
def ofInt (n : Int) : Binary64 :=
  let x := nearest n.natAbs 1
  if n < 0 then x.neg else x

/-- The product of two finite positive numbers, rounded to the closest. -/
def mul (x y : Binary64) : Binary64 :=
  nearest ((x.significand * y.significand) <<< (x.shift + y.shift)) (1 <<< 2148)

/-- The quotient of two finite positive numbers, rounded to the closest. -/
def div (x y : Binary64) : Binary64 :=
  nearest (x.significand <<< x.shift) (y.significand <<< y.shift)

end Binary64

end EntityQuery
