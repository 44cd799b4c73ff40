/-!
# Bytes as hexadecimal digits

Two digits stand for a byte, the high one first. Writing uses digits of one case, and reading
accepts digits of either: `decodeHex_lowerHex` and `decodeHex_upperHex` say that it takes back what
was written.
-/

namespace EntityQuery.Text

/-- The value of a hexadecimal digit of either case. -/
def hexDigit? (c : Char) : Option Nat :=
  if '0' ≤ c ∧ c ≤ '9' then some (c.toNat - 48)
  else if 'a' ≤ c ∧ c ≤ 'f' then some (c.toNat - 87)
  else if 'A' ≤ c ∧ c ≤ 'F' then some (c.toNat - 55)
  else none

/-- The bytes that pairs of hexadecimal digits stand for. An odd digit and any other character are
refused. -/
def decodeHex : List Char → Option (List UInt8)
  | [] => some []
  | [_] => none
  | high :: low :: cs => do
    let h ← hexDigit? high
    let l ← hexDigit? low
    let bytes ← decodeHex cs
    return (16 * h + l).toUInt8 :: bytes

/-- Bytes as lower-case digits. -/
def lowerHex : List UInt8 → List Char
  | [] => []
  | b :: bs => Nat.digitChar (b.toNat / 16) :: Nat.digitChar (b.toNat % 16) :: lowerHex bs

/-- Bytes as upper-case digits. -/
def upperHex : List UInt8 → List Char
  | [] => []
  | b :: bs =>
    (Nat.digitChar (b.toNat / 16)).toUpper :: (Nat.digitChar (b.toNat % 16)).toUpper ::
      upperHex bs

/-- A lower-case digit has the value that it was written for. -/
theorem hexDigit?_digitChar : ∀ d < 16, hexDigit? (Nat.digitChar d) = some d := by decide

/-- An upper-case digit has the value that it was written for. -/
theorem hexDigit?_toUpper_digitChar : ∀ d < 16, hexDigit? (Nat.digitChar d).toUpper = some d := by
  decide

private theorem byte_of_halves (b : UInt8) : (16 * (b.toNat / 16) + b.toNat % 16).toUInt8 = b := by
  rw [Nat.div_add_mod]
  exact UInt8.ofNat_toNat

/-- Reading takes back lower-case digits. -/
theorem decodeHex_lowerHex (bs : List UInt8) : decodeHex (lowerHex bs) = some bs := by
  induction bs with
  | nil => rfl
  | cons b bs ih =>
    have hb : b.toNat < 256 := b.toNat_lt
    rw [lowerHex, decodeHex, hexDigit?_digitChar _ (by omega), hexDigit?_digitChar _ (by omega), ih]
    exact congrArg (fun byte => some (byte :: bs)) (byte_of_halves b)

/-- Reading takes back upper-case digits. -/
theorem decodeHex_upperHex (bs : List UInt8) : decodeHex (upperHex bs) = some bs := by
  induction bs with
  | nil => rfl
  | cons b bs ih =>
    have hb : b.toNat < 256 := b.toNat_lt
    rw [upperHex, decodeHex, hexDigit?_toUpper_digitChar _ (by omega),
      hexDigit?_toUpper_digitChar _ (by omega), ih]
    exact congrArg (fun byte => some (byte :: bs)) (byte_of_halves b)

end EntityQuery.Text
