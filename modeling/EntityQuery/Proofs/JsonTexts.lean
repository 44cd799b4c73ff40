import EntityQuery.Json.Printer
import EntityQuery.Json.Reader
import EntityQuery.Proofs.UniqueReading

/-!
# Reading JSON as it is written

A value whose numbers are whole and fit 64 bits is read back from its text with one item a line,
unless it is nested too deep (`Json.Kept.read?_pretty`). A text is followed through the reader from
its characters on: `Json.stringBody_append` takes a string up to its closing quote, whatever is
escaped in it, and `Json.number?_toString` a number up to a character that does not go on with it.
What is taken of a text is told by `Json.Takes`. The loops over items and over members take the same
course (`Json.Sequence`), so that both are followed by one induction on what they collect
(`Json.Sequence.takes_separated`). The induction over the value is the one on `Json.Kept`, whose
bound is the depth to which the reader goes.
-/

namespace EntityQuery.Json

/-! ## Strings -/

theorem hexValue?_digitChar : ∀ d < 16, hexValue? (Nat.digitChar d) = some d := by decide

/-- Four digits are the number whose last two digits they end with. -/
theorem fourHex?_digitChar {n : Nat} (h : n < 0x20) :
    fourHex? '0' '0' (Nat.digitChar (n / 16)) (Nat.digitChar (n % 16)) = some n := by
  have hzero : hexValue? '0' = some 0 := rfl
  have hhigh := hexValue?_digitChar (n / 16) (by omega)
  have hlow := hexValue?_digitChar (n % 16) (by omega)
  simp only [fourHex?, hzero, hhigh, hlow, Option.bind_eq_bind, Option.bind_some, Option.pure_def,
    Option.some.injEq]
  omega

section

variable {c d : Char} {cs : List Char}

/-- A letter after a backslash stands for a character of its own, unless it is the one before four
digits. -/
theorem stringBody_simple (hc : c ≠ 'u') (hd : simpleEscape? c = some d) :
    stringBody ('\\' :: c :: cs) = (stringBody cs).map fun (s, rest) => (d :: s, rest) := by
  rw [stringBody.eq_def]
  split
  next h => cases h
  next h => cases h
  next h =>
    cases h
    exact absurd rfl hc
  next h =>
    cases h
    exact absurd rfl hc
  next h =>
    cases h
    rw [hd]
    cases stringBody cs <;> rfl
  next hescape h =>
    cases h
    exact absurd rfl (hescape c cs rfl)

/-- A character that needs no backslash stands for itself. -/
theorem stringBody_plain (hquote : c ≠ '"') (hbackslash : c ≠ '\\') (hcontrol : ¬ c.toNat < 0x20) :
    stringBody (c :: cs) = (stringBody cs).map fun (s, rest) => (c :: s, rest) := by
  rw [stringBody.eq_def]
  split
  next h => cases h
  next h =>
    cases h
    exact absurd rfl hquote
  -- The three forms of an escape begin with a backslash.
  iterate 3
    next h =>
      cases h
      exact absurd rfl hbackslash
  next h =>
    cases h
    rw [if_neg (not_or.mpr ⟨hcontrol, hbackslash⟩)]
    cases stringBody cs <;> rfl

end

/-- A control character is read back from its four digits, whatever stands behind them. -/
theorem stringBody_control {n : Nat} (h : n < 0x20) (cs : List Char) :
    stringBody
        ('\\' :: 'u' :: '0' :: '0' :: Nat.digitChar (n / 16) :: Nat.digitChar (n % 16) :: cs) =
      (stringBody cs).map fun (s, rest) => (Char.ofNat n :: s, rest) := by
  have hfour := fourHex?_digitChar h
  rw [stringBody.eq_def]
  split
  next h => cases h
  next h => cases h
  next heq =>
    -- Four more digits follow, which are no second half of a character.
    cases heq
    rw [hfour]
    have hhigh : ¬ (0xD800 ≤ n ∧ n < 0xDC00) := by omega
    have hlow : ¬ (0xDC00 ≤ n ∧ n < 0xE000) := by omega
    simp only [Option.bind_eq_bind, Option.bind_some, if_neg hhigh, if_neg hlow]
    cases stringBody _ <;> rfl
  next heq =>
    cases heq
    rw [hfour]
    have hhalf : ¬ (0xD800 ≤ n ∧ n < 0xE000) := by omega
    simp only [Option.bind_eq_bind, Option.bind_some, if_neg hhalf]
    cases stringBody cs <;> rfl
  next hfour' heq =>
    cases heq
    exact (hfour' _ _ _ _ _ rfl rfl).elim
  next hescape heq =>
    cases heq
    exact absurd rfl (hescape _ _ rfl)

/-- A character is read back as it is written in a string. -/
theorem stringBody_escapedChar (c : Char) (cs : List Char) :
    stringBody (escapedChar c ++ cs) = (stringBody cs).map fun (s, rest) => (c :: s, rest) := by
  unfold escapedChar
  split
  iterate 7 exact stringBody_simple (by decide) rfl
  next hquote hbackslash _ _ _ _ _ =>
    split
    next hcontrol =>
      have hread := stringBody_control hcontrol cs
      rwa [Char.ofNat_toNat] at hread
    next hcontrol => exact stringBody_plain hquote hbackslash hcontrol

/-- The characters of a string are read back up to its closing quote. -/
theorem stringBody_append (s rest : List Char) :
    stringBody (s.flatMap escapedChar ++ '"' :: rest) = some (s, rest) := by
  induction s with
  | nil => rw [List.flatMap_nil, List.nil_append, stringBody]
  | cons c s ih =>
    rw [List.flatMap_cons, List.append_assoc, stringBody_escapedChar, ih]
    rfl

/-! ## Numbers -/

/-- A number only grows when digits are appended to it. -/
theorem le_ofDigitChars (digits : List Char) (significand : Nat) :
    significand ≤ Nat.ofDigitChars 10 digits significand := by
  rw [Nat.ofDigitChars_eq_ofDigitChars_zero]
  have hscaled : significand ≤ 10 ^ digits.length * significand :=
    Nat.le_mul_of_pos_left _ (Nat.pow_pos (by decide))
  omega

/-- All digits of a number within the bound are taken. -/
theorem appendDigits_eq {significand : Nat} {digits : List Char}
    (h : Nat.ofDigitChars 10 digits significand ≤ maxSignificand) :
    appendDigits significand digits =
      (Nat.ofDigitChars 10 digits significand, digits.length) := by
  induction digits generalizing significand with
  | nil => rfl
  | cons c digits ih =>
    have hzero : '0'.toNat = 48 := rfl
    rw [Nat.ofDigitChars_cons, hzero] at h ⊢
    have hnext : 10 * significand + (c.toNat - 48) ≤ maxSignificand :=
      Nat.le_trans (le_ofDigitChars digits _) h
    have hrest := ih h
    unfold appendDigits
    dsimp only
    rw [if_pos hnext]
    show ((appendDigits (10 * significand + (c.toNat - 48)) digits).1,
      (appendDigits (10 * significand + (c.toNat - 48)) digits).2 + 1) = _
    rw [hrest]
    rfl

/-- The digits of a number that is not zero do not begin with a zero. -/
theorem head?_toDigits {n : Nat} (h : 0 < n) : (Nat.toDigits 10 n).head? ≠ some '0' := by
  induction n using Nat.strongRecOn with
  | ind n ih =>
    rcases Nat.lt_or_ge n 10 with hn | hn
    · rw [Nat.toDigits_of_lt_base hn]
      intro hzero
      have := Nat.digitChar_eq_zero.mp (Option.some.inj hzero)
      omega
    · rw [Nat.toDigits_of_base_le (by decide) hn,
        List.head?_append_of_ne_nil _ Nat.toDigits_ne_nil]
      exact ih (n / 10) (by omega) (by omega)

/-- A text goes on after a number: it begins neither with a digit nor with the point or the letter
of a part of one. -/
def Ends (cs : List Char) : Prop :=
  ∀ c ∈ cs.head?, c.isDigit = false ∧ c ≠ '.' ∧ c ≠ 'e' ∧ c ≠ 'E'

/-- The parts of a number after its digits. -/
theorem parts_of_ends {rest : List Char} (h : Ends rest) :
    fractionPart rest = some (none, rest) ∧ exponentPart rest = some (none, rest) := by
  cases rest with
  | nil => exact ⟨rfl, rfl⟩
  | cons c rest =>
    obtain ⟨-, hpoint, he, hE⟩ := h c rfl
    constructor
    · unfold fractionPart
      split
      next heq =>
        cases heq
        exact absurd rfl hpoint
      next => rfl
    · unfold exponentPart
      exact if_neg (not_or.mpr ⟨he, hE⟩)

/-- Digits are told from what follows a number. -/
theorem spanDigits_append {digits rest : List Char} (hdigits : ∀ c ∈ digits, c.isDigit = true)
    (h : Ends rest) : spanDigits (digits ++ rest) = (digits, rest) := by
  have hrest : ∀ c ∈ rest.head?, Char.isDigit c = false := fun c hc => (h c hc).1
  have htake := Lexeme.takeWhile_append hdigits hrest
  -- What is left is what the digits are followed by in the whole text.
  have hdrop := List.takeWhile_append_dropWhile (p := Char.isDigit) (l := digits ++ rest)
  rw [htake] at hdrop
  unfold spanDigits
  rw [htake, List.append_cancel_left hdrop]

/-- A whole number fits 64 bits, with a sign or without one. -/
def Fits (n : Int) : Prop := Int64.minValue.toInt ≤ n ∧ n < UInt64.size

/-- A whole number that fits 64 bits is the value of its digits and its sign. -/
theorem numberOfParts?_toDigits {n : Int} (h : Fits n) :
    numberOfParts? (decide (n < 0)) (Nat.toDigits 10 n.natAbs) none none = some (int n) := by
  have hvalue : Nat.ofDigitChars 10 (Nat.toDigits 10 n.natAbs) 0 = n.natAbs :=
    Nat.ofDigitChars_ten_toDigits
  have hmin : Int64.minValue.toInt = -9223372036854775808 := by decide
  have hsize : UInt64.size = 18446744073709551616 := rfl
  obtain ⟨hleast, hmost⟩ := h
  have hbound : n.natAbs ≤ maxSignificand := by
    unfold maxSignificand
    omega
  have hdigits := appendDigits_eq (hvalue.symm ▸ hbound)
  rw [hvalue] at hdigits
  unfold numberOfParts?
  rw [hdigits]
  dsimp only
  rw [Nat.sub_self, if_neg (by simp)]
  by_cases hn : n < 0
  · have hnegative : 0 < n.natAbs ∧ n.natAbs ≤ Int64.minValue.toInt.natAbs := by omega
    have hneg : -(n.natAbs : Int) = n := by omega
    rw [decide_eq_true hn, if_neg (by decide), if_pos hnegative, hneg]
  · have hpos : (n.natAbs : Int) = n := by omega
    rw [decide_eq_false hn, if_pos (by decide), hpos]

/-- What `number?` does after the sign. -/
def unsigned? (negative : Bool) (cs : List Char) : Option (Json × List Char) := do
  let (whole, cs) := spanDigits cs
  if whole = [] ∨ (whole.length ≠ 1 ∧ whole.head? = some '0') then none
  let (fraction?, cs) ← fractionPart cs
  let (exponent?, cs) ← exponentPart cs
  let json ← numberOfParts? negative whole fraction? exponent?
  return (json, cs)

theorem number?_minus (cs : List Char) : number? ('-' :: cs) = unsigned? true cs := rfl

theorem number?_of_ne_minus {c : Char} (h : c ≠ '-') (cs : List Char) :
    number? (c :: cs) = unsigned? false (c :: cs) := by
  unfold number?
  split
  next heq =>
    split at heq
    next hminus =>
      cases hminus
      exact absurd rfl h
    next =>
      cases heq
      rfl

/-- The digits of a whole number are read back, up to where the text goes on. -/
theorem unsigned?_toDigits {n : Int} {rest : List Char} (hn : Fits n) (hrest : Ends rest) :
    unsigned? (decide (n < 0)) (Nat.toDigits 10 n.natAbs ++ rest) = some (int n, rest) := by
  obtain ⟨hne, hdigits⟩ := Text.isNumeral_toDigits n.natAbs
  have hzeros : ¬(Nat.toDigits 10 n.natAbs = [] ∨ (Nat.toDigits 10 n.natAbs).length ≠ 1 ∧
      (Nat.toDigits 10 n.natAbs).head? = some '0') := by
    rintro (hnil | ⟨hlength, hhead⟩)
    · exact hne hnil
    · rcases Nat.eq_zero_or_pos n.natAbs with hzero | hpos
      · rw [hzero] at hlength
        exact hlength rfl
      · exact head?_toDigits hpos hhead
  obtain ⟨hfraction, hexponent⟩ := parts_of_ends hrest
  unfold unsigned?
  rw [spanDigits_append hdigits hrest]
  dsimp only
  simp only [if_neg hzeros, hfraction, hexponent, numberOfParts?_toDigits hn, Option.bind_eq_bind,
    Option.bind_some, Option.pure_def]

/-- A whole number that fits 64 bits is read back, up to where the text goes on. -/
theorem number?_toString {n : Int} {rest : List Char} (hn : Fits n) (hrest : Ends rest) :
    number? ((toString n).toList ++ rest) = some (int n, rest) := by
  have hread := unsigned?_toDigits hn hrest
  rw [Int.toString_eq_repr, Int.repr_eq_if]
  by_cases hsign : n < 0
  · have hmagnitude : (-n).toNat = n.natAbs := by omega
    rw [if_neg (by omega), String.toList_append, Nat.toList_repr, hmagnitude]
    rw [decide_eq_true hsign] at hread
    exact (number?_minus _).trans hread
  · have hmagnitude : n.toNat = n.natAbs := by omega
    rw [if_pos (by omega), Nat.toList_repr, hmagnitude]
    obtain ⟨c, more, hdigits, hc, -⟩ := (Text.isNumeral_toDigits n.natAbs).eq_cons
    have hminus : c ≠ '-' := by
      rintro rfl
      cases hc
    rw [decide_eq_false hsign, hdigits, List.cons_append] at hread
    rw [hdigits, List.cons_append, number?_of_ne_minus hminus, hread]

/-! ## Steps of the reader -/

section

variable {α : Type} {cs more rest after : List Char}

/-- A reader takes a value off the front of a text and leaves the rest. -/
def Takes (read : Reader α) (cs : List Char) (a : α) (rest : List Char) : Prop :=
  ∃ h, read cs = some (a, ⟨rest, h⟩)

/-- A step that leaves less than it was given takes what it says. -/
theorem takes_of_eq {read : Reader α} {a : α} (h : read cs = taken? cs (some (a, rest)))
    (hrest : rest.length < cs.length) : Takes read cs a rest :=
  ⟨hrest, h.trans (dif_pos hrest)⟩

/-- What stands behind the first character is shorter than the text. -/
theorem length_of_skipSpace {c : Char} (h : skipSpace cs = c :: more) :
    more.length < cs.length := by
  have hle := length_skipSpace_le cs
  rw [h] at hle
  exact hle

/-- A reader of several values goes on after each of them: it ends at a delimiter, and it looks for
another value behind a comma. -/
structure Sequence (many : Reader (List α)) (close : Char)
    (one : List Char → α → List Char → Prop) : Prop where
  /-- The last value stands before the delimiter. -/
  last {cs rest after : List Char} {a : α} : one cs a rest → skipSpace rest = close :: after →
    Takes many cs [a] after
  /-- Another value stands before a comma. -/
  cons {cs rest more after : List Char} {a : α} {as : List α} : one cs a rest →
    skipSpace rest = ',' :: more → Takes many more as after → Takes many cs (a :: as) after

/-- Items are values in a sequence. -/
theorem items_sequence (value : Reader Json) : Sequence (items value) ']' (Takes value) := by
  constructor
  · intro cs rest after x hx hrest
    obtain ⟨hlt, hx⟩ := hx
    refine takes_of_eq ?_ (Nat.lt_trans (length_of_skipSpace hrest) hlt)
    rw [items, hx]
    dsimp only
    split
    next heq =>
      rw [hrest] at heq
      cases heq
      rfl
    next heq =>
      rw [hrest] at heq
      cases heq
    next hclose _ => exact absurd hrest (hclose after)
  · intro cs rest more after x xs hx hrest hxs
    obtain ⟨hlt, hx⟩ := hx
    obtain ⟨hafter, hxs⟩ := hxs
    refine takes_of_eq ?_
      (Nat.lt_trans hafter (Nat.lt_trans (length_of_skipSpace hrest) hlt))
    rw [items, hx]
    dsimp only
    split
    next heq =>
      rw [hrest] at heq
      cases heq
    next heq =>
      rw [hrest] at heq
      cases heq
      rw [hxs]
    next _ hcomma => exact absurd hrest (hcomma more)

/-- A member is a key and a value behind it. -/
def TakesMember (value : Reader Json) (cs : List Char) (m : String × Json) (rest : List Char) :
    Prop :=
  ∃ afterKey, Takes key? cs m.1 afterKey ∧ Takes value afterKey m.2 rest

/-- Members are keys with values in a sequence. -/
theorem members_sequence (value : Reader Json) :
    Sequence (members value) '\x7d' (TakesMember value) := by
  constructor
  · rintro cs rest after ⟨k, v⟩ ⟨afterKey, ⟨hkeylt, hk⟩, hlt, hv⟩ hrest
    refine takes_of_eq ?_ (Nat.lt_trans (length_of_skipSpace hrest) (Nat.lt_trans hlt hkeylt))
    rw [members, hk]
    dsimp only
    rw [hv]
    dsimp only
    split
    next heq =>
      rw [hrest] at heq
      cases heq
      rfl
    next heq =>
      rw [hrest] at heq
      cases heq
    next hclose _ => exact absurd hrest (hclose after)
  · rintro cs rest more after ⟨k, v⟩ ms ⟨afterKey, ⟨hkeylt, hk⟩, hlt, hv⟩ hrest ⟨hafter, hms⟩
    refine takes_of_eq ?_ (Nat.lt_trans hafter
      (Nat.lt_trans (length_of_skipSpace hrest) (Nat.lt_trans hlt hkeylt)))
    rw [members, hk]
    dsimp only
    rw [hv]
    dsimp only
    split
    next heq =>
      rw [hrest] at heq
      cases heq
    next heq =>
      rw [hrest] at heq
      cases heq
      rw [hms]
    next _ hcomma => exact absurd hrest (hcomma more)

/-- A key is a string before a colon. -/
theorem takes_key? {s : List Char}
    (hcs : skipSpace cs = '"' :: (s.flatMap escapedChar ++ '"' :: rest))
    (hrest : skipSpace rest = ':' :: after) : Takes key? cs (String.ofList s) after := by
  have hstring := length_of_skipSpace hcs
  have hcolon := length_of_skipSpace hrest
  rw [List.length_append, List.length_cons] at hstring
  refine takes_of_eq ?_ (by omega)
  unfold key?
  simp only [hcs, stringBody_append, hrest, Option.bind_eq_bind, Option.bind_some]

variable {bound : Nat}

/-- A value that is a string. -/
theorem takes_string {s : List Char}
    (hcs : skipSpace cs = '"' :: (s.flatMap escapedChar ++ '"' :: rest)) :
    Takes (value bound) cs (string (String.ofList s)) rest := by
  have hstring := length_of_skipSpace hcs
  rw [List.length_append, List.length_cons] at hstring
  refine takes_of_eq ?_ (by omega)
  rw [value.eq_def]
  simp only [hcs, stringBody_append, Option.map_some]

/-- A name is read off the front of a text. -/
theorem literal?_append (name : String) (json : Json) (rest : List Char) :
    literal? name json (name.toList ++ rest) = some (json, rest) := by
  have hpre : name.toList.isPrefixOf (name.toList ++ rest) = true :=
    List.isPrefixOf_iff_prefix.mpr (List.prefix_append _ _)
  have hdrop : (name.toList ++ rest).drop name.length = rest := by
    rw [← String.length_toList, List.drop_left]
  unfold literal?
  rw [if_pos hpre, hdrop]

/-- A value that is a name. -/
theorem takes_literal {name : String} {json : Json} (hcs : skipSpace cs = name.toList ++ rest)
    (hname : name.toList ≠ [])
    (hvalue : value bound cs = taken? cs (literal? name json (skipSpace cs))) :
    Takes (value bound) cs json rest := by
  obtain ⟨c, more, hmore⟩ := List.exists_cons_of_ne_nil hname
  have hlt : (more ++ rest).length < cs.length := by
    rw [hmore] at hcs
    exact length_of_skipSpace hcs
  refine takes_of_eq ?_ (Nat.lt_of_le_of_lt (List.suffix_append more rest).length_le hlt)
  rw [hvalue, hcs, literal?_append]

/-- A value that is a Boolean. -/
theorem takes_bool {b : Bool}
    (hcs : skipSpace cs = (if b then "true" else "false").toList ++ rest) :
    Takes (value bound) cs (bool b) rest := by
  refine takes_literal hcs (by cases b <;> decide) ?_
  rw [value.eq_def]
  cases b <;> simp only [hcs] <;> rfl

/-- A value that is none. -/
theorem takes_null (hcs : skipSpace cs = "null".toList ++ rest) :
    Takes (value bound) cs null rest := by
  refine takes_literal hcs (by decide) ?_
  rw [value.eq_def]
  simp only [hcs]
  rfl

/-- A character that begins no other value begins a number. -/
theorem value_number {c : Char} (hcs : skipSpace cs = c :: more)
    (hc : c ∉ ['"', '[', '\x7b', 't', 'f', 'n']) :
    value bound cs = taken? cs (number? (c :: more)) := by
  rw [value.eq_def]
  simp only [hcs]
  split
  case h_1 heq => cases heq
  case h_8 => rfl
  all_goals
    rename_i heq
    cases heq
    exact absurd (by decide) hc

/-- A value that is a whole number. -/
theorem takes_int {n : Int} (hcs : skipSpace cs = (toString n).toList ++ rest)
    (hn : Fits n) (hrest : Ends rest) :
    Takes (value bound) cs (int n) rest := by
  have hread := number?_toString hn hrest
  have hbegins : ∃ c more, (toString n).toList = c :: more ∧
      c ∉ ['"', '[', '\x7b', 't', 'f', 'n'] := by
    obtain ⟨digits, hdigits, ⟨htext, -⟩ | ⟨htext, -⟩⟩ := Text.exists_numeral n
    · obtain ⟨c, more, rfl, hc, -⟩ := hdigits.eq_cons
      refine ⟨c, more, htext, fun hmem => ?_⟩
      -- No digit is among the characters that begin other values.
      simp only [List.mem_cons, List.not_mem_nil, or_false] at hmem
      rcases hmem with rfl | rfl | rfl | rfl | rfl | rfl <;> cases hc
    · exact ⟨'-', digits, htext, by decide⟩
  obtain ⟨c, more, htext, hc⟩ := hbegins
  rw [htext, List.cons_append] at hcs hread
  refine takes_of_eq ?_
    (Nat.lt_of_le_of_lt (List.suffix_append more rest).length_le (length_of_skipSpace hcs))
  rw [value_number hcs hc, hread]

/-- A value that is an array without items. -/
theorem takes_array_nil (hcs : skipSpace cs = '[' :: ']' :: rest) :
    Takes (value (bound + 1)) cs (array []) rest := by
  refine takes_of_eq ?_ (Nat.lt_of_succ_lt (length_of_skipSpace hcs))
  rw [value.eq_def]
  simp only [hcs]
  rfl

/-- A value that is an array with items. -/
theorem takes_array {xs : List Json} (hcs : skipSpace cs = '[' :: more)
    (hxs : Takes (items (value bound)) more xs rest) :
    Takes (value (bound + 1)) cs (array xs) rest := by
  obtain ⟨hlt, hxs⟩ := hxs
  refine takes_of_eq ?_ (Nat.lt_trans hlt (length_of_skipSpace hcs))
  rw [value.eq_def]
  simp only [hcs]
  split
  next hclose =>
    -- No value begins with the bracket, so that there would be no first item.
    have hnone : value bound more = none := by
      rw [value_number hclose (by decide)]
      rfl
    rw [items, hnone] at hxs
    cases hxs
  next => rw [hxs, Option.map_some]

/-- A value that is an object without members. -/
theorem takes_object_nil (hcs : skipSpace cs = '\x7b' :: '\x7d' :: rest) :
    Takes (value (bound + 1)) cs (object []) rest := by
  refine takes_of_eq ?_ (Nat.lt_of_succ_lt (length_of_skipSpace hcs))
  rw [value.eq_def]
  simp only [hcs]
  rfl

/-- A value that is an object with members. -/
theorem takes_object {ms : List (String × Json)} (hcs : skipSpace cs = '\x7b' :: more)
    (hms : Takes (members (value bound)) more ms rest) :
    Takes (value (bound + 1)) cs (object ms) rest := by
  obtain ⟨hlt, hms⟩ := hms
  refine takes_of_eq ?_ (Nat.lt_trans hlt (length_of_skipSpace hcs))
  rw [value.eq_def]
  simp only [hcs]
  split
  next hclose =>
    -- No key begins with the brace, so that there would be no first member.
    have hnone : key? more = none := by
      unfold key?
      rw [hclose]
      rfl
    rw [members, hnone] at hms
    cases hms
  next => rw [hms, Option.map_some]

end

/-! ## Layouts -/

/-- A text does not begin with white space when its first character is none. -/
theorem skipSpace_cons {c : Char} (h : isSpace c = false) (cs : List Char) :
    skipSpace (c :: cs) = c :: cs := by
  rw [skipSpace, List.dropWhile_cons_of_neg (by simp [h])]

/-- White space before a text is skipped with what the text begins with. -/
theorem skipSpace_append {spaces : List Char} (h : ∀ c ∈ spaces, isSpace c = true)
    (cs : List Char) : skipSpace (spaces ++ cs) = skipSpace cs :=
  List.dropWhile_append_of_pos h

/-- A line end and its indentation are white space. -/
theorem skipSpace_newline (depth : Nat) (cs : List Char) :
    skipSpace ((newline depth).toList ++ cs) = skipSpace cs := by
  apply skipSpace_append
  intro c hc
  unfold newline at hc
  rw [String.toList_append, List.mem_append] at hc
  rcases hc with hc | hc
  · obtain rfl := List.mem_singleton.mp hc
    rfl
  · rw [String.toList_ofList] at hc
    obtain rfl := List.eq_of_mem_replicate hc
    rfl

/-- A number ends where a line does. -/
theorem ends_newline (depth : Nat) (cs : List Char) : Ends ((newline depth).toList ++ cs) := by
  intro c hc
  unfold newline at hc
  rw [String.toList_append] at hc
  obtain rfl : '\n' = c := Option.some.inj hc
  decide

/-- Items and members are laid out one by one. -/
theorem prettyItems_eq_map (depth : Nat) (xs : List Json) :
    prettyAt.prettyItems depth xs = xs.map (prettyAt depth) := by
  induction xs with
  | nil => rfl
  | cons x xs ih => rw [prettyAt.prettyItems, ih, List.map_cons]

theorem prettyMembers_eq_map (depth : Nat) (ms : List (String × Json)) :
    prettyAt.prettyMembers depth ms =
      ms.map fun m => stringText m.1 ++ ": " ++ prettyAt depth m.2 := by
  induction ms with
  | nil => rfl
  | cons m ms ih => rw [prettyAt.prettyMembers, ih, List.map_cons]

/-- What is written on lines of its own is taken as a sequence, if each text is wherever it
stands. -/
theorem Sequence.takes_separated {α : Type} {many : Reader (List α)} {close : Char}
    {one : List Char → α → List Char → Prop} (hseq : Sequence many close one) {text : α → String}
    {depth outer : Nat} {as : List α} (hne : as ≠ [])
    (has : ∀ a ∈ as, ∀ cs rest, skipSpace cs = skipSpace ((text a).toList ++ rest) → Ends rest →
      one cs a rest)
    {cs rest : List Char}
    (hcs : skipSpace cs = skipSpace ((separated ("," ++ newline depth) (as.map text)).toList ++
      ((newline outer).toList ++ close :: rest)))
    (hclose : isSpace close = false) : Takes many cs as rest := by
  -- The induction is on the values, from whatever white space stands before the first of them.
  induction as generalizing cs with
  | nil => exact absurd rfl hne
  | cons a as ih =>
    obtain ⟨ha, has⟩ := List.forall_mem_cons.mp has
    cases as with
    | nil =>
      have hlast : skipSpace ((newline outer).toList ++ close :: rest) = close :: rest := by
        rw [skipSpace_newline, skipSpace_cons hclose]
      exact hseq.last (ha cs _ hcs (ends_newline outer _)) hlast
    | cons b bs =>
      have htext : (separated ("," ++ newline depth) ((a :: b :: bs).map text)).toList =
          (text a).toList ++ ',' :: ((newline depth).toList ++
            (separated ("," ++ newline depth) ((b :: bs).map text)).toList) := by
        unfold separated
        simp only [List.map_cons, String.intercalate_cons_cons, String.toList_append,
          List.append_assoc]
        rfl
      rw [htext, List.append_assoc, List.cons_append, List.append_assoc] at hcs
      have hends : ∀ cs, Ends (',' :: cs) := by
        intro cs c hc
        obtain rfl : ',' = c := Option.some.inj hc
        decide
      refine hseq.cons (ha cs _ hcs (hends _)) rfl (ih (List.cons_ne_nil _ _) has ?_)
      rw [skipSpace_newline]

/-! ## Values -/

/-- A value is kept exactly by its text: its numbers are whole and fit 64 bits, and arrays and
objects are nested at most so deep in it. -/
inductive Kept : Nat → Json → Prop
  | null {bound : Nat} : Kept bound null
  | bool {bound : Nat} (b : Bool) : Kept bound (bool b)
  | int {bound : Nat} {n : Int} (h : Fits n) : Kept bound (int n)
  | string {bound : Nat} (s : String) : Kept bound (string s)
  | array {bound : Nat} {items : List Json} (h : ∀ x ∈ items, Kept bound x) :
    Kept (bound + 1) (array items)
  | object {bound : Nat} {members : List (String × Json)} (h : ∀ m ∈ members, Kept bound m.2) :
    Kept (bound + 1) (object members)

/-- The characters of a string with its quotes. -/
theorem toList_stringText_append (s : String) (rest : List Char) :
    (stringText s).toList ++ rest = '"' :: (s.toList.flatMap escapedChar ++ '"' :: rest) := by
  unfold stringText
  rw [String.toList_ofList, List.cons_append, List.append_assoc]
  rfl

/-- The text of a whole number does not begin with white space. -/
theorem skipSpace_toString (n : Int) (rest : List Char) :
    skipSpace ((toString n).toList ++ rest) = (toString n).toList ++ rest := by
  obtain ⟨digits, hdigits, ⟨htext, -⟩ | ⟨htext, -⟩⟩ := Text.exists_numeral n
  · obtain ⟨c, more, rfl, hc, -⟩ := hdigits.eq_cons
    have hspace : isSpace c = false := by
      refine Bool.eq_false_iff.mpr fun hspace => ?_
      simp only [isSpace, Bool.or_eq_true, beq_iff_eq] at hspace
      rcases hspace with ((rfl | rfl) | rfl) | rfl <;> cases hc
    rw [htext, List.cons_append, skipSpace_cons hspace]
  · rw [htext, List.cons_append, skipSpace_cons rfl]

section

variable {opening closing : String} (first last : Char)

/-- Without items, the delimiters stand next to each other. -/
theorem toList_block_nil (hopening : opening.toList = [first]) (hclosing : closing.toList = [last])
    (depth : Nat) (rest : List Char) :
    (block opening closing depth []).toList ++ rest = first :: last :: rest := by
  unfold block
  rw [if_pos List.isEmpty_nil, String.toList_append, hopening, hclosing]
  rfl

/-- The characters of some items on lines of their own. -/
theorem toList_block (hopening : opening.toList = [first]) (hclosing : closing.toList = [last])
    {texts : List String} (h : texts ≠ []) (depth : Nat) (rest : List Char) :
    (block opening closing depth texts).toList ++ rest = first ::
      ((newline (depth + 1)).toList ++ ((separated ("," ++ newline (depth + 1)) texts).toList ++
        ((newline depth).toList ++ last :: rest))) := by
  unfold block
  rw [if_neg (by simpa using h)]
  simp only [String.toList_append, List.append_assoc, hopening, hclosing]
  rfl

end

/-- A value is taken off the front of any text that begins with its own, after white space. -/
theorem Kept.takes_prettyAt {bound : Nat} {json : Json} (h : Kept bound json) (depth : Nat)
    {cs rest : List Char} (hcs : skipSpace cs = skipSpace ((prettyAt depth json).toList ++ rest))
    (hrest : Ends rest) : Takes (value bound) cs json rest := by
  -- The bound goes down where the depth goes up, in the items and in the members.
  induction h generalizing depth cs rest with
  | null =>
    rw [prettyAt] at hcs
    exact takes_null hcs
  | bool b =>
    rw [prettyAt] at hcs
    refine takes_bool (hcs.trans ?_)
    cases b <;> exact skipSpace_cons rfl _
  | @int bound n hn =>
    rw [prettyAt, skipSpace_toString] at hcs
    exact takes_int hcs hn hrest
  | @string bound s =>
    rw [prettyAt, toList_stringText_append] at hcs
    have htaken : Takes (value bound) cs _ rest := takes_string hcs
    rwa [String.ofList_toList] at htaken
  | @array bound items _ ih =>
    rw [prettyAt, prettyItems_eq_map] at hcs
    by_cases hne : items = []
    · subst hne
      rw [List.map_nil, toList_block_nil '[' ']' rfl rfl] at hcs
      exact takes_array_nil hcs
    · rw [toList_block '[' ']' rfl rfl (by simpa using hne), skipSpace_cons rfl] at hcs
      exact takes_array hcs ((items_sequence _).takes_separated hne
        (fun x hx _ _ => ih x hx (depth + 1)) (skipSpace_newline _ _) rfl)
  | @object bound members _ ih =>
    rw [prettyAt, prettyMembers_eq_map] at hcs
    by_cases hne : members = []
    · subst hne
      rw [List.map_nil, toList_block_nil '\x7b' '\x7d' rfl rfl] at hcs
      exact takes_object_nil hcs
    · rw [toList_block '\x7b' '\x7d' rfl rfl (by simpa using hne), skipSpace_cons rfl] at hcs
      have hone : ∀ m ∈ members, ∀ cs rest, skipSpace cs = skipSpace
          ((stringText m.1 ++ ": " ++ prettyAt (depth + 1) m.2).toList ++ rest) → Ends rest →
            TakesMember (value bound) cs m rest := by
        intro m hm cs rest hcs hrest
        rw [String.toList_append, String.toList_append, List.append_assoc, List.append_assoc,
          toList_stringText_append] at hcs
        -- The space behind the colon is skipped by the reader of the value.
        have hkey : Takes key? cs (String.ofList m.1.toList)
            (' ' :: ((prettyAt (depth + 1) m.2).toList ++ rest)) := takes_key? hcs rfl
        rw [String.ofList_toList] at hkey
        exact ⟨_, hkey, ih m hm (depth + 1) rfl hrest⟩
      exact takes_object hcs
        ((members_sequence _).takes_separated hne hone (skipSpace_newline _ _) rfl)

/-- A value is read back from its text with one item a line. -/
theorem Kept.read?_pretty {json : Json} (h : Kept maxDepth json) :
    read? json.pretty = some json := by
  have hcs : skipSpace json.pretty.toList = skipSpace ((prettyAt 0 json).toList ++ []) := by
    rw [List.append_nil]
    rfl
  have hends : Ends [] := fun c hc => by cases hc
  obtain ⟨hlt, hvalue⟩ := h.takes_prettyAt 0 hcs hends
  unfold read?
  rw [hvalue]
  rfl

end EntityQuery.Json
