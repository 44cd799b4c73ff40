import EntityQuery.Text.Columns

/-!
# Ligatures

Letters that are drawn as one sign with the letter before them, so that the two take fewer columns
than they would apart. A text is read from its end: `LigatureEnd` is the part of a ligature that
has been read, and `LigatureEnd.extend?` says what a character before it adds.
-/

namespace EntityQuery.Text

/-- What may be the end of a ligature. Of those that need a joiner before them, `joined` says that
there is one. -/
inductive LigatureEnd
  /-- An Arabic alef, which joins a lam. -/
  | alef
  /-- A Hebrew lamed, which joins an alef. -/
  | lamed (joined : Bool)
  /-- A Buginese ya, which joins an a with the vowel sign i. -/
  | ya (joined : Bool)
  /-- A Buginese ya behind a joiner and the vowel sign i. -/
  | vowelYa
  /-- A Tifinagh consonant, which joins another one. -/
  | tifinagh (joined : Bool)
  /-- A Tifinagh consonant behind the consonant joiner. -/
  | markedTifinagh
  /-- A Lisu tone letter, which joins another one. -/
  | tone
  /-- An Old Turkic i, which joins an ec. -/
  | orkhonI (joined : Bool)
  /-- A Khmer letter, which is drawn below the line behind the sign coeng. -/
  | khmer
deriving DecidableEq, Repr

/-- The Arabic letters of the joining group alef. -/
def alefs : Ranges :=
  [(0x622, 0x623), (0x625, 0x625), (0x627, 0x627), (0x671, 0x673), (0x675, 0x675), (0x773, 0x774),
   (0x870, 0x882)]

/-- The Arabic letters of the joining group lam. -/
def lams : Ranges :=
  [(0x644, 0x644), (0x6b5, 0x6b8), (0x76a, 0x76a), (0x8a6, 0x8a6), (0x8c7, 0x8c7)]

/-- The Khmer letters that have a form below the line. -/
def khmerSubscribed : Ranges :=
  [(0x1780, 0x1782), (0x1784, 0x1787), (0x1789, 0x178c), (0x178e, 0x1793), (0x1795, 0x1798),
   (0x179b, 0x179d), (0x17a0, 0x17a0), (0x17a2, 0x17a2), (0x17a7, 0x17a7), (0x17ab, 0x17ac),
   (0x17af, 0x17af)]

/-- The Tifinagh consonants. -/
def tifinaghConsonants : Ranges :=
  [(0x2d31, 0x2d65), (0x2d6f, 0x2d6f)]

/-- The marks that are ignored by default. -/
def ignoredMarks : Ranges :=
  [(0x34f, 0x34f), (0x17b4, 0x17b5), (0x180b, 0x180d), (0x180f, 0x180f), (0xfe00, 0xfe0f),
   (0xe0100, 0xe01ef)]

/-- The code points without a column that keep the Arabic letters on their sides from joining. -/
def unjoining : Ranges :=
  [(0x605, 0x605), (0x890, 0x891), (0x8e2, 0x8e2), (0x9be, 0x9be), (0x9d7, 0x9d7), (0xb3e, 0xb3e),
   (0xb53, 0xb54), (0xb57, 0xb57), (0xbbe, 0xbbe), (0xbd7, 0xbd7), (0xcc0, 0xcc0), (0xcc2, 0xcc2),
   (0xcc7, 0xcc8), (0xcca, 0xccb), (0xcd5, 0xcd6), (0xd3e, 0xd3e), (0xd4e, 0xd4e), (0xd57, 0xd57),
   (0xdcf, 0xdcf), (0xddf, 0xddf), (0x1160, 0x11ff), (0x1715, 0x1715), (0x1734, 0x1734),
   (0x180e, 0x180e), (0x1b35, 0x1b35), (0x1b3b, 0x1b3b), (0x1b3d, 0x1b3d), (0x1b43, 0x1b44),
   (0x1baa, 0x1baa), (0x1bf2, 0x1bf3), (0x200c, 0x200d), (0x2065, 0x2069), (0x302e, 0x302f),
   (0x3164, 0x3164), (0xa8fa, 0xa8fa), (0xa953, 0xa953), (0xa9c0, 0xa9c0), (0xd7b0, 0xd7c6),
   (0xd7cb, 0xd7fb), (0xffa0, 0xffa0), (0xfff0, 0xfff8), (0x111c0, 0x111c0), (0x111c2, 0x111c3),
   (0x11235, 0x11235), (0x1133e, 0x1133e), (0x1134d, 0x1134d), (0x11357, 0x11357),
   (0x113b8, 0x113b8), (0x113c2, 0x113c2), (0x113c5, 0x113c5), (0x113c7, 0x113c9),
   (0x113cf, 0x113cf), (0x113d1, 0x113d1), (0x114b0, 0x114b0), (0x114bd, 0x114bd),
   (0x115af, 0x115af), (0x116b6, 0x116b6), (0x11930, 0x11930), (0x1193d, 0x1193d),
   (0x1193f, 0x1193f), (0x11941, 0x11941), (0x11a3a, 0x11a3a), (0x11a84, 0x11a89),
   (0x11d46, 0x11d46), (0x11f02, 0x11f02), (0x11f41, 0x11f41), (0x16ff0, 0x16ff1),
   (0x1d165, 0x1d166), (0x1d16d, 0x1d172), (0xe0000, 0xe0000), (0xe0002, 0xe001f),
   (0xe0080, 0xe00ff), (0xe01f0, 0xe0fff)]

/-- Arabic letters join across a character when it takes no column and does not keep them from
joining. -/
def joinsAcross (c : Char) : Bool := columns c == 0 && !unjoining.contains c.toNat

namespace LigatureEnd

/-- The ligature that ends in a character. -/
def ofChar? (c : Char) : Option LigatureEnd :=
  let n := c.toNat
  if alefs.contains n then some .alef
  else if c = '\u05dc' then some (.lamed false)
  else if khmerSubscribed.contains n then some .khmer
  else if c = '\u1a10' then some (.ya false)
  else if tifinaghConsonants.contains n then some (.tifinagh false)
  else if c = '\ua4fc' || c = '\ua4fd' then some .tone
  else if n = 0x10c03 then some (.orkhonI false)
  else none

/-- The end of a ligature behind a joiner. -/
def behindJoiner : LigatureEnd → LigatureEnd
  | lamed _ => lamed true
  | ya _ => ya true
  | tifinagh _ => tifinagh true
  | orkhonI _ => orkhonI true
  | l => l

/-- What a character before the end of a ligature adds to its columns, and the end that it makes
longer, unless it completes the ligature; nothing when the two do not join. -/
def extend? (l : LigatureEnd) (c : Char) : Option (Int × Option LigatureEnd) :=
  match l with
  | alef =>
    if lams.contains c.toNat then some (0, none)
    else if joinsAcross c then some (0, some alef)
    else none
  | lamed joined => if joined && c == '\u05d0' then some (0, none) else none
  | ya joined => if joined && c == '\u1a17' then some (0, some vowelYa) else none
  | vowelYa => if c = '\u1a15' then some (0, none) else none
  | tifinagh joined =>
    if c = '\u2d7f' then some (1, some markedTifinagh)
    else if joined && tifinaghConsonants.contains c.toNat then some (0, none)
    else none
  | markedTifinagh => if tifinaghConsonants.contains c.toNat then some (-1, none) else none
  | tone => if '\ua4f8' ≤ c ∧ c ≤ '\ua4fb' then some (0, none) else none
  | orkhonI joined => if joined && c.toNat == 0x10c32 then some (0, none) else none
  | khmer => if c = '\u17d2' then some (-1, none) else none

/-- The same, where marks that are ignored by default and joiners may stand inside a ligature.
An alef has rules of its own for what may stand before it. -/
def absorb? (l : LigatureEnd) (c : Char) : Option (Int × Option LigatureEnd) :=
  if l = alef then l.extend? c
  else if c = joiner then some (0, some l.behindJoiner)
  else if ignoredMarks.contains c.toNat then some (0, some l)
  else l.extend? c

end LigatureEnd

end EntityQuery.Text
