import EntityQuery.Text.Hex

/-!
# Globally unique identifiers

Sixteen bytes, written as 32 lower-case hexadecimal digits in groups of 8, 4, 4, 4 and 12, and read
with digits of either case, grouped or not.
-/

namespace EntityQuery

/-- A globally unique identifier. -/
structure Guid where
  /-- Its bytes. -/
  bytes : List UInt8
  /-- There are sixteen of them. -/
  length_bytes : bytes.length = 16
deriving DecidableEq

namespace Guid

/-- The identifier with some bytes, if there are sixteen. -/
def ofBytes? (bytes : List UInt8) : Option Guid :=
  if h : bytes.length = 16 then some ⟨bytes, h⟩ else none

/-- The positions of the hyphens in a grouped text. -/
def hyphenPositions : List Nat := [8, 13, 18, 23]

/-- A text is grouped when it has 36 characters and its hyphens stand just where the groups
meet. -/
def isGrouped (cs : List Char) : Bool :=
  cs.length == 36 && cs.zipIdx.all fun (c, i) => hyphenPositions.contains i == (c == '-')

/-- The identifier that a text of 32 digits names, grouped or not. -/
def ofText? (cs : List Char) : Option Guid :=
  let digits := if isGrouped cs then cs.filter (· != '-') else cs
  (Text.decodeHex digits).bind ofBytes?

/-- The grouped text of an identifier. -/
def text (g : Guid) : List Char :=
  let hex := Text.lowerHex g.bytes
  hex.take 8 ++ '-' :: ((hex.drop 8).take 4 ++ '-' :: ((hex.drop 12).take 4 ++
    '-' :: ((hex.drop 16).take 4 ++ '-' :: hex.drop 20)))

end Guid

end EntityQuery
