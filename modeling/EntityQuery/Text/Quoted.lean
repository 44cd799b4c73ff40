import EntityQuery.Text.Printable

/-!
# Text in double quotes

How a text value is shown: between double quotes, with the quote, the backslash, line ends, tabs
and the null character behind a backslash, every other character that is not printable as
`\u{…}` with its code point in hexadecimal, and all else as it is.
-/

namespace EntityQuery.Text

/-- A number in lower-case hexadecimal, without leading zeros. -/
def hexNumber (n : Nat) : List Char := Nat.toDigits 16 n

/-- What stands for one character inside double quotes. -/
def quotedChar (c : Char) : List Char :=
  match c with
  | '"' => ['\\', '"']
  | '\\' => ['\\', '\\']
  | '\n' => ['\\', 'n']
  | '\r' => ['\\', 'r']
  | '\t' => ['\\', 't']
  | '\x00' => ['\\', '0']
  | c => if isPrintable c then [c] else '\\' :: 'u' :: '{' :: (hexNumber c.toNat ++ ['}'])

/-- A text between double quotes. -/
def quoted (cs : List Char) : List Char := '"' :: (cs.flatMap quotedChar ++ ['"'])

end EntityQuery.Text
