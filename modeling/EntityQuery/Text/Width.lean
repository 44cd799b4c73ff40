import EntityQuery.Text.Emoji
import EntityQuery.Text.Ligature

/-!
# Width of a text on a terminal

The columns that a line takes. They are not the sum over its characters: letters of some scripts
are drawn as one sign, a selector changes the style of the character before it, and an emoji may
be made of several ones. The line is read from its end, and `Following` says of what has been read
as much as may change the columns of the character before it. `columnsBefore` gives these columns,
which are less than none when the character takes back what the next one has counted.
-/

namespace EntityQuery.Text

/-- The beginning of the text behind a character. -/
inductive Tail
  /-- Nothing that joins a character before it. -/
  | plain
  /-- The end of a ligature. -/
  | ligature (l : LigatureEnd)
  /-- The Kirat Rai vowel sign e. -/
  | vowelE
  /-- The Kirat Rai vowel sign ai, whole or as two signs e. -/
  | vowelAi
  /-- An emoji. -/
  | emoji
  /-- A skin tone. -/
  | skinTone
  /-- A flag letter. -/
  | flagLetter
  /-- Two flag letters or more. -/
  | flagLetters
  /-- An emoji behind a joiner. -/
  | joinedEmoji
  /-- A key cap, a joiner and an emoji. -/
  | joinedKeycap
  /-- A flag letter, a joiner and an emoji. -/
  | joinedFlagLetter
  /-- An even number of flag letters, a joiner and an emoji. -/
  | joinedFlagPairs
  /-- An odd number of flag letters, three or more, a joiner and an emoji. -/
  | joinedFlagOdd
  /-- Some tag letters and the end of a tag, a joiner and an emoji. -/
  | tagLetters (count : Nat)
  /-- Some tag digits before tag letters and the end of a tag, a joiner and an emoji. -/
  | tagDigits (count : Nat)
deriving DecidableEq, Repr

namespace Tail

/-- The tail that begins in a character. -/
def ofChar (c : Char) : Tail :=
  match LigatureEnd.ofChar? c with
  | some l => .ligature l
  | none =>
    if c.toNat = 0x16d67 then .vowelE
    else if c.toNat = 0x16d68 then .vowelAi
    else if isFlagLetter c then .flagLetter
    else if isSkinTone c then .skinTone
    else if isEmoji c then .emoji
    else .plain

/-- What a style selector leaves of a tail: a selector may stand inside a ligature. -/
def behindTextSelector : Tail → Tail
  | ligature l => ligature l
  | _ => plain

/-- What an emoji selector leaves of a tail: it also stands inside a joined emoji. -/
def behindEmojiSelector : Tail → Tail
  | ligature l => ligature l
  | joinedEmoji => joinedEmoji
  | joinedKeycap => joinedKeycap
  | _ => plain

/-- A tail is a part of an emoji that a character with the emoji style completes. -/
def isJoined : Tail → Bool
  | joinedEmoji | joinedKeycap => true
  | _ => false

/-- What a character adds before an emoji behind a joiner. -/
def absorbJoined? (c : Char) : Option (Int × Tail) :=
  if c = '\u20e3' then some (0, joinedKeycap)
  else if isFlagLetter c then some (1, joinedFlagLetter)
  else if isSkinTone c then some (0, skinTone)
  else if c.toNat = 0xe007f then some (0, tagLetters 0)
  else if isEmoji c then some (0, emoji)
  else none

/-- The black flag, which the name of a region follows. -/
def blackFlag : Nat := 0x1f3f4

/-- What a character adds to the columns of the tail behind it, and the tail that the two make;
nothing when they do not join. A pair of flag letters takes two columns before a joined emoji, as
the emoji alone does. -/
def absorb? (t : Tail) (c : Char) : Option (Int × Tail) :=
  match t with
  | plain => none
  | ligature l => (l.absorb? c).map fun (n, rest) => (n, (rest.map ligature).getD plain)
  | vowelE =>
    match c.toNat with
    | 0x16d63 | 0x16d69 => some (0, plain)
    | 0x16d67 => some (0, vowelAi)
    | 0x16d68 => some (1, vowelE)
    | _ => none
  | vowelAi => if c.toNat = 0x16d63 then some (0, plain) else none
  | emoji => if c = joiner then some (0, joinedEmoji) else none
  | skinTone =>
    if takesSkinTone c then some (0, emoji)
    else if c = joiner then some (0, joinedEmoji)
    else none
  | flagLetter => if isFlagLetter c then some (1, flagLetters) else none
  | flagLetters =>
    if isFlagLetter c then some (1, flagLetters)
    else if c = joiner then some (0, joinedEmoji)
    else none
  | joinedEmoji => absorbJoined? c
  | joinedKeycap => none
  | joinedFlagLetter => if isFlagLetter c then some (-1, joinedFlagPairs) else none
  | joinedFlagPairs =>
    if isFlagLetter c then some (3, joinedFlagOdd)
    else if c = joiner then some (0, joinedEmoji)
    else none
  | joinedFlagOdd =>
    if isFlagLetter c then some (-1, joinedFlagPairs)
    else if c = joiner then some (0, joinedEmoji)
    else none
  | tagLetters n =>
    if isTagLetter c && n < 6 then some (0, tagLetters (n + 1))
    else if isTagDigit c && n < 5 then some (0, tagDigits 1)
    else if c.toNat = blackFlag ∧ 3 ≤ n then some (0, emoji)
    else none
  | tagDigits n =>
    if isTagDigit c && n < 3 then some (0, tagDigits (n + 1))
    else if c.toNat = blackFlag ∧ n = 3 then some (0, emoji)
    else none

end Tail

/-- The style that a selector asks for. -/
inductive Style
  | text
  | emoji
deriving DecidableEq, Repr

/-- What stands behind a character, as far as it changes the columns of the character: a tail, and
the selector that may stand before it. -/
structure Following where
  /-- What stands behind the selector, if there is one. -/
  tail : Tail
  /-- The style that the selector asks for. -/
  style : Option Style

namespace Following

/-- A tail without a selector before it. -/
def ofTail (t : Tail) : Following := ⟨t, none⟩

/-- What remains when the character before a selector does not heed it. -/
def unheeded (f : Following) : Tail :=
  if f.style = none then f.tail else f.tail.behindTextSelector

end Following

/-- The columns of a character before some text, and what the two are to a character before
them. -/
def columnsBefore (c : Char) (f : Following) : Int × Following :=
  if f.style = some .emoji ∧ hasTwoStyles c then
    (if f.tail.isJoined then 0 else 2, .ofTail .emoji)
  else if c ≤ '\u00a0' then (1, .ofTail .plain)
  else if c = emojiSelector then (0, ⟨f.unheeded.behindEmojiSelector, some .emoji⟩)
  else if c = textSelector then (0, ⟨f.unheeded.behindTextSelector, some .text⟩)
  else if f.style = some .text ∧ shrinksAsText c then (1, .ofTail .plain)
  else
    match f.unheeded.absorb? c with
    | some (n, tail) => (n, .ofTail tail)
    | none => (columns c, .ofTail (.ofChar c))

/-- The columns of a line, and what it is to a character before it. -/
def readColumns : List Char → Int × Following
  | [] => (0, .ofTail .plain)
  | c :: cs =>
    let (n, following) := readColumns cs
    let (k, whole) := columnsBefore c following
    (k + n, whole)

/-- The number of columns that a line takes. -/
def width (line : List Char) : Nat := (readColumns line).1.toNat

end EntityQuery.Text
