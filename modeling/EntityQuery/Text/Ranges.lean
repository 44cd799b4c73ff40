/-!
# Sets of characters as ranges

A set of code points is a list of closed ranges in ascending order. `Ranges.contains` stops at
the first range that reaches the code point.
-/

namespace EntityQuery.Text

/-- A set of code points: closed ranges, ascending and apart. -/
abbrev Ranges := List (Nat × Nat)

/-- A set contains a code point when the first range that ends at or after it begins at or before
it. -/
def Ranges.contains : Ranges → Nat → Bool
  | [], _ => false
  | (low, high) :: rest, n => if n ≤ high then decide (low ≤ n) else contains rest n

end EntityQuery.Text
