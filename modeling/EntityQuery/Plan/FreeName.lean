/-!
# Search for a name that is not taken

Of an unending row of candidates the first one that is free is taken. When only some number of
names are taken and the candidates differ, one more than that number of candidates holds a free
one, so a bound on the search loses nothing.
-/

namespace EntityQuery

/-- The position of the first free candidate from a position on, looking past at most `taken`
candidates that are taken. -/
def firstFree (isTaken : String → Bool) (candidate : Nat → String) : Nat → Nat → Nat
  | 0, position => position
  | taken + 1, position =>
    if isTaken (candidate position) then firstFree isTaken candidate taken (position + 1)
    else position

end EntityQuery
