import EntityQuery.Json.Basic

/-!
# Reading JSON

`Json.read?` takes the value that a whole text holds. Values may be nested up to `maxDepth` deep.
A whole number that fits 64 bits, with or without a sign, is kept exactly; every other number is
the product or quotient of at most twenty leading digits and a power of ten, rounded after each
step, and one beyond the largest double is refused.

A reader returns what is left of the text together with a proof that it took something, which is
what ends the loops over items and members.
-/

namespace EntityQuery.Json

/-- What is left of a text of which at least one character was taken. -/
abbrev Rest (cs : List Char) := {rest : List Char // rest.length < cs.length}

/-- Reads a value off the front of a text. -/
abbrev Reader (α : Type) := (cs : List Char) → Option (α × Rest cs)

/-- White space of JSON. -/
def isSpace (c : Char) : Bool := c == ' ' || c == '\t' || c == '\n' || c == '\r'

/-- A text without leading white space. -/
def skipSpace (cs : List Char) : List Char := cs.dropWhile isSpace

theorem length_skipSpace_le (cs : List Char) : (skipSpace cs).length ≤ cs.length :=
  (List.dropWhile_suffix isSpace).length_le

/-! ### Numbers -/

/-- The greatest significand that a number's leading digits may form. -/
def maxSignificand : Nat := UInt64.size - 1

/-- Appends digits to a significand as long as it stays within the bound; the count is of the
digits appended. -/
def appendDigits : Nat → List Char → Nat × Nat
  | significand, [] => (significand, 0)
  | significand, c :: cs =>
    let next := 10 * significand + (c.toNat - 48)
    if next ≤ maxSignificand then
      let (result, count) := appendDigits next cs
      (result, count + 1)
    else (significand, 0)

/-- A power of ten up to the greatest that a double can hold. -/
def powerOfTen (n : Nat) : Binary64 := Binary64.ofDecimal 1 n

/-- A significand times a power of ten, without sign. A great negative exponent is taken in two
steps. -/
def scaled? (significand : Nat) (exponent : Int) : Option Binary64 :=
  let start := Binary64.ofInt significand
  if significand = 0 then some start
  else if 308 < exponent then none
  else if 0 ≤ exponent then
    let x := start.mul (powerOfTen exponent.toNat)
    if x.isFinite then some x else none
  else if -308 ≤ exponent then some (start.div (powerOfTen (-exponent).toNat))
  else if -616 ≤ exponent then
    some ((start.div (powerOfTen 308)).div (powerOfTen (-exponent - 308).toNat))
  else some (Binary64.ofMagnitude 0)

/-- The exponent part of a number: its digits with their sign, and what follows. -/
structure ExponentPart where
  /-- The exponent is negative. -/
  negative : Bool
  /-- Its digits. -/
  digits : List Char

/-- The value of a number from its parts: sign, digits before the point, digits after it if there
is a point, and exponent if there is one. -/
def numberOfParts? (negative : Bool) (whole : List Char) (fraction? : Option (List Char))
    (exponent? : Option ExponentPart) : Option Json :=
  let (significand, used) := appendDigits 0 whole
  let dropped := whole.length - used
  let signed (x : Binary64) : Json := float (if negative then x.neg else x)
  match fraction?, exponent? with
  | none, none =>
    if dropped ≠ 0 then (scaled? significand dropped).map signed
    else if !negative then some (int significand)
    else if 0 < significand ∧ significand ≤ Int64.minValue.toInt.natAbs then
      some (int (-significand))
    else some (signed (Binary64.ofInt significand))
  | _, _ =>
    let (significand, places) := appendDigits significand (fraction?.getD [])
    let base : Int := (dropped : Int) - places
    match exponent? with
    | none => (scaled? significand base).map signed
    | some e =>
      let n := Nat.ofDigitChars 10 e.digits 0
      if Int32.maxValue.toInt < n then
        if significand ≠ 0 ∧ !e.negative then none else some (signed (Binary64.ofMagnitude 0))
      else (scaled? significand (if e.negative then base - n else base + n)).map signed

/-- The digits at the front of a text and the rest. -/
def spanDigits (cs : List Char) : List Char × List Char :=
  (cs.takeWhile Char.isDigit, cs.dropWhile Char.isDigit)

/-- The fraction at the front of a text, if one begins there; a point without digits is an
error. -/
def fractionPart (cs : List Char) : Option (Option (List Char) × List Char) :=
  match cs with
  | '.' :: rest =>
    let (ds, rest) := spanDigits rest
    if ds = [] then none else some (some ds, rest)
  | _ => some (none, cs)

/-- The exponent at the front of a text, if one begins there; one without digits is an error. -/
def exponentPart (cs : List Char) : Option (Option ExponentPart × List Char) :=
  match cs with
  | [] => some (none, cs)
  | c :: rest =>
    if c = 'e' ∨ c = 'E' then
      let (negative, rest) :=
        match rest with
        | '+' :: rest => (false, rest)
        | '-' :: rest => (true, rest)
        | _ => (false, rest)
      let (ds, rest) := spanDigits rest
      if ds = [] then none else some (some ⟨negative, ds⟩, rest)
    else some (none, cs)

/-- Reads a number. The whole part has no leading zeros. -/
def number? (cs : List Char) : Option (Json × List Char) := do
  let (negative, cs) :=
    match cs with
    | '-' :: rest => (true, rest)
    | _ => (false, cs)
  let (whole, cs) := spanDigits cs
  if whole = [] ∨ (whole.length ≠ 1 ∧ whole.head? = some '0') then none
  let (fraction?, cs) ← fractionPart cs
  let (exponent?, cs) ← exponentPart cs
  let json ← numberOfParts? negative whole fraction? exponent?
  return (json, cs)

/-! ### Strings -/

/-- The value of a hexadecimal digit. -/
def hexValue? (c : Char) : Option Nat :=
  if c.isDigit then some (c.toNat - 48)
  else if 'a' ≤ c ∧ c ≤ 'f' then some (c.toNat - 87)
  else if 'A' ≤ c ∧ c ≤ 'F' then some (c.toNat - 55)
  else none

/-- The number that four hexadecimal digits form. -/
def fourHex? (a b c d : Char) : Option Nat := do
  let a ← hexValue? a
  let b ← hexValue? b
  let c ← hexValue? c
  let d ← hexValue? d
  return 4096 * a + 256 * b + 16 * c + d

/-- The character that a letter after a backslash stands for. -/
def simpleEscape? : Char → Option Char
  | '"' => some '"'
  | '\\' => some '\\'
  | '/' => some '/'
  | 'b' => some '\x08'
  | 'f' => some '\x0c'
  | 'n' => some '\n'
  | 'r' => some '\r'
  | 't' => some '\t'
  | _ => none

/-- Reads the rest of a string after its opening quote. Code points beyond the first plane may be
escaped as two surrogates; a surrogate on its own is refused, as is a bare control character. -/
def stringBody : List Char → Option (List Char × List Char)
  | [] => none
  | '"' :: cs => some ([], cs)
  | '\\' :: 'u' :: a :: b :: c :: d :: '\\' :: 'u' :: e :: f :: g :: h :: cs => do
    let high ← fourHex? a b c d
    if 0xD800 ≤ high ∧ high < 0xDC00 then
      let low ← fourHex? e f g h
      if low < 0xDC00 ∨ 0xE000 ≤ low then none
      let (s, rest) ← stringBody cs
      return (Char.ofNat (0x10000 + 0x400 * (high - 0xD800) + (low - 0xDC00)) :: s, rest)
    else if 0xDC00 ≤ high ∧ high < 0xE000 then none
    else
      let (s, rest) ← stringBody ('\\' :: 'u' :: e :: f :: g :: h :: cs)
      return (Char.ofNat high :: s, rest)
  | '\\' :: 'u' :: a :: b :: c :: d :: cs => do
    let n ← fourHex? a b c d
    if 0xD800 ≤ n ∧ n < 0xE000 then none
    let (s, rest) ← stringBody cs
    return (Char.ofNat n :: s, rest)
  | '\\' :: c :: cs => do
    let c ← simpleEscape? c
    let (s, rest) ← stringBody cs
    return (c :: s, rest)
  | c :: cs => do
    if c.toNat < 0x20 ∨ c = '\\' then none
    let (s, rest) ← stringBody cs
    return (c :: s, rest)

/-! ### Values -/

/-- What a step leaves, if it took something. -/
def taken? {α : Type} (cs : List Char) : Option (α × List Char) → Option (α × Rest cs)
  | some (a, rest) => if h : rest.length < cs.length then some (a, ⟨rest, h⟩) else none
  | none => none

/-- Reads the items of an array up to its closing bracket. -/
def items (value : Reader Json) (cs : List Char) : Option (List Json × Rest cs) :=
  match value cs with
  | none => none
  | some (x, rest) =>
    match _h : skipSpace rest.1 with
    | ']' :: after => taken? cs (some ([x], after))
    | ',' :: after =>
      match items value after with
      | none => none
      | some (xs, rest) => taken? cs (some (x :: xs, rest.1))
    | _ => none
termination_by cs.length
decreasing_by
  have h₁ := length_skipSpace_le rest.1
  have h₂ := rest.2
  rw [_h, List.length_cons] at h₁
  omega

/-- Reads a key with its colon. -/
def key? (cs : List Char) : Option (String × Rest cs) :=
  match skipSpace cs with
  | '"' :: after => do
    let (s, rest) ← stringBody after
    match skipSpace rest with
    | ':' :: rest => taken? cs (some (String.ofList s, rest))
    | _ => none
  | _ => none

/-- Reads the members of an object up to its closing brace. -/
def members (value : Reader Json) (cs : List Char) : Option (List (String × Json) × Rest cs) :=
  match key? cs with
  | none => none
  | some (k, afterKey) =>
    match value afterKey.1 with
    | none => none
    | some (v, rest) =>
      match _h : skipSpace rest.1 with
      | '\x7d' :: after => taken? cs (some ([(k, v)], after))
      | ',' :: after =>
        match members value after with
        | none => none
        | some (ms, rest) => taken? cs (some ((k, v) :: ms, rest.1))
      | _ => none
termination_by cs.length
decreasing_by
  have h₁ := length_skipSpace_le rest.1
  have h₂ := rest.2
  have h₃ := afterKey.2
  rw [_h, List.length_cons] at h₁
  omega

/-- Reads a literal name. -/
def literal? (name : String) (json : Json) (cs : List Char) : Option (Json × List Char) :=
  if name.toList.isPrefixOf cs then some (json, cs.drop name.length) else none

/-- Reads a value whose arrays and objects are nested at most so deep. -/
def value : Nat → Reader Json
  | depth, cs =>
    match skipSpace cs with
    | [] => none
    | '"' :: after =>
      taken? cs ((stringBody after).map fun (s, rest) => (string (String.ofList s), rest))
    | '[' :: after =>
      match depth with
      | 0 => none
      | depth + 1 =>
        match skipSpace after with
        | ']' :: rest => taken? cs (some (array [], rest))
        | _ =>
          taken? cs ((items (value depth) after).map fun (xs, rest) => (array xs, rest.1))
    | '\x7b' :: after =>
      match depth with
      | 0 => none
      | depth + 1 =>
        match skipSpace after with
        | '\x7d' :: rest => taken? cs (some (object [], rest))
        | _ =>
          taken? cs ((members (value depth) after).map fun (ms, rest) => (object ms, rest.1))
    | 't' :: _ => taken? cs (literal? "true" (bool true) (skipSpace cs))
    | 'f' :: _ => taken? cs (literal? "false" (bool false) (skipSpace cs))
    | 'n' :: _ => taken? cs (literal? "null" null (skipSpace cs))
    | _ => taken? cs (number? (skipSpace cs))

/-- How deep arrays and objects may be nested. -/
def maxDepth : Nat := 127

/-- The value that a whole text holds. -/
def read? (text : String) : Option Json :=
  match value maxDepth text.toList with
  | some (json, rest) => if skipSpace rest.1 = [] then some json else none
  | none => none

end EntityQuery.Json
