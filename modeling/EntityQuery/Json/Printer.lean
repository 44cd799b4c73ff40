import EntityQuery.Json.Basic
import EntityQuery.Number.Shortest

/-!
# Writing JSON

Two layouts: `compact` without any white space, and `pretty` with every item on a line of its own,
two spaces further in than what holds it, and a space after the colon. Empty arrays and objects
stay on one line in both.
-/

namespace EntityQuery.Json

/-- A character inside a JSON string. Control characters and the two delimiters are escaped. -/
def escapedChar (c : Char) : List Char :=
  match c with
  | '"' => ['\\', '"']
  | '\\' => ['\\', '\\']
  | '\n' => ['\\', 'n']
  | '\r' => ['\\', 'r']
  | '\t' => ['\\', 't']
  | '\x08' => ['\\', 'b']
  | '\x0c' => ['\\', 'f']
  | c =>
    if c.toNat < 0x20 then
      ['\\', 'u', '0', '0', Nat.digitChar (c.toNat / 16), Nat.digitChar (c.toNat % 16)]
    else [c]

/-- A JSON string. -/
def stringText (s : String) : String :=
  String.ofList ('"' :: (s.toList.flatMap escapedChar ++ ['"']))

/-- A number that is not whole; JSON has no text for infinity and the like but `null`. -/
def floatText (x : Binary64) : String :=
  if x.isFinite then String.ofList x.scientific else "null"

/-- Texts with a separator between them. -/
def separated (separator : String) (texts : List String) : String :=
  String.intercalate separator texts

/-- The layout without white space. -/
def compact : Json → String
  | null => "null"
  | bool b => if b then "true" else "false"
  | int n => toString n
  | float x => floatText x
  | string s => stringText s
  | array items => "[" ++ separated "," (compactItems items) ++ "]"
  | object members => "\x7b" ++ separated "," (compactMembers members) ++ "\x7d"
where
  /-- The texts of the items of an array. -/
  compactItems : List Json → List String
    | [] => []
    | x :: xs => compact x :: compactItems xs
  /-- The texts of the members of an object. -/
  compactMembers : List (String × Json) → List String
    | [] => []
    | (k, v) :: rest => (stringText k ++ ":" ++ compact v) :: compactMembers rest

/-- A line end and the indentation of a depth. -/
def newline (depth : Nat) : String := "\n" ++ String.ofList (List.replicate (2 * depth) ' ')

/-- Items on lines of their own between two delimiters. -/
def block (opening closing : String) (depth : Nat) (texts : List String) : String :=
  if texts.isEmpty then opening ++ closing
  else
    opening ++ newline (depth + 1) ++ separated ("," ++ newline (depth + 1)) texts ++
      newline depth ++ closing

/-- The layout with one item a line, for a value at some depth. -/
def prettyAt (depth : Nat) : Json → String
  | null => "null"
  | bool b => if b then "true" else "false"
  | int n => toString n
  | float x => floatText x
  | string s => stringText s
  | array items => block "[" "]" depth (prettyItems (depth + 1) items)
  | object members => block "\x7b" "\x7d" depth (prettyMembers (depth + 1) members)
where
  /-- The texts of the items of an array at some depth. -/
  prettyItems (depth : Nat) : List Json → List String
    | [] => []
    | x :: xs => prettyAt depth x :: prettyItems depth xs
  /-- The texts of the members of an object at some depth. -/
  prettyMembers (depth : Nat) : List (String × Json) → List String
    | [] => []
    | (k, v) :: rest => (stringText k ++ ": " ++ prettyAt depth v) :: prettyMembers depth rest

/-- The layout with one item a line. -/
def pretty (json : Json) : String := prettyAt 0 json

end EntityQuery.Json
