import EntityQuery.Proofs.Lexemes
import EntityQuery.Proofs.Parsing

/-!
# Reading tokens as they are written

`Token.Spells` lists the ways in which a token is written, and `Token.spells_iff` says which tokens
can be written at all. At the front of a text a token is read back from any of its spellings
(`Lexeme.kindAt_spells`) when nothing follows, or a character that can prolong no token, such as a
space: each of the longest sequences that the lexer takes, of name characters, of digits and of the
characters before a closing quote, ends where the spelling does. A text of tokens with single spaces
between them is then read token by token.
-/

namespace EntityQuery

open Lexeme (quote isNameStart isNamePart isSpace numberOf doubled)

/-! ## Spellings -/

namespace Text

/-- A name begins with a letter or an underscore and goes on with these and digits. -/
def IsName : List Char → Prop
  | [] => False
  | c :: cs => isNameStart c = true ∧ cs.all isNamePart = true

instance : DecidablePred IsName
  | [] => inferInstanceAs (Decidable False)
  | c :: cs => inferInstanceAs (Decidable (isNameStart c = true ∧ cs.all isNamePart = true))

/-- A name by its first and its other characters. -/
theorem IsName.eq_cons {cs : List Char} (h : IsName cs) :
    ∃ c more, cs = c :: more ∧ isNameStart c = true ∧ ∀ d ∈ more, isNamePart d = true := by
  cases cs with
  | nil => exact h.elim
  | cons c more => exact ⟨c, more, rfl, h.1, List.all_eq_true.mp h.2⟩

/-- A numeral is one or more decimal digits. -/
def IsNumeral (cs : List Char) : Prop := cs ≠ [] ∧ ∀ c ∈ cs, c.isDigit = true

/-- A numeral by its first and its other digits. -/
theorem IsNumeral.eq_cons {cs : List Char} (h : IsNumeral cs) :
    ∃ c more, cs = c :: more ∧ c.isDigit = true ∧ ∀ d ∈ more, d.isDigit = true := by
  obtain ⟨c, more, rfl⟩ := List.exists_cons_of_ne_nil h.1
  exact ⟨c, more, rfl, h.2 c List.mem_cons_self, fun d hd => h.2 d (List.mem_cons_of_mem c hd)⟩

/-- A decimal is a numeral, or two numerals with a point between them. -/
inductive IsDecimal : List Char → Prop
  | whole {digits : List Char} (h : IsNumeral digits) : IsDecimal digits
  | fraction {digits more : List Char} (h : IsNumeral digits) (hmore : IsNumeral more) :
      IsDecimal (digits ++ '.' :: more)

/-- The digits of a number are a numeral. -/
theorem isNumeral_toDigits (n : Nat) : IsNumeral (Nat.toDigits 10 n) :=
  ⟨Nat.toDigits_ne_nil, fun _ hc => Nat.isDigit_of_mem_toDigits (by decide) (by decide) hc⟩

end Text

/-- A token is written as a text. -/
inductive Token.Spells : Token → String → Prop
  | keyword (k : Keyword) : Spells (.keyword k) k.spelling
  | symbol (s : Symbol) : Spells (.symbol s) (String.singleton s.char)
  /-- A name is written as it is, unless it is a keyword. -/
  | ident {name : String} (hname : Text.IsName name.toList)
      (hkeyword : ∀ k : Keyword, k.spelling ≠ name) : Spells (.ident name) name
  /-- Text is put in quotes, with quotes inside doubled. -/
  | text (value : String) : Spells (.text value) (Expr.quotedLiteral value)
  | int {n : Int64} {digits : String} (h : Text.IsNumeral digits.toList)
      (hn : numberOf digits.toList = n.toInt) : Spells (.int n) digits
  /-- A long number is marked by a letter. -/
  | long {n : Int64} {digits : String} {mark : Char} (h : Text.IsNumeral digits.toList)
      (hn : numberOf digits.toList = n.toInt) (hmark : mark = 'l' ∨ mark = 'L') :
      Spells (.long n) (digits.push mark)
  /-- A decimal is marked by a letter. -/
  | decimal {digits : String} {mark : Char} (h : Text.IsDecimal digits.toList)
      (hmark : mark = 'm' ∨ mark = 'M') : Spells (.decimal digits) (digits.push mark)
  /-- What is announced by a word is put in quotes as it is. -/
  | quoted {kind : LiteralKind} {word body : String} (hword : LiteralKind.ofWord? word = some kind)
      (hbody : quote ∉ body.toList) : Spells (.quoted kind body) (word ++ "'" ++ body ++ "'")

/-- A token can be written: it is no number of double precision, no name that is none or a keyword,
no negative number, no decimal of another form, and no quoted literal with a quote inside. -/
def Token.IsWritable : Token → Prop
  | .keyword _ | .symbol _ | .text _ => True
  | .quoted _ body => quote ∉ body.toList
  | .ident name => Text.IsName name.toList ∧ ∀ k : Keyword, k.spelling ≠ name
  | .int n | .long n => 0 ≤ n.toInt
  | .decimal digits => Text.IsDecimal digits.toList
  | .double _ => False

/-- The tokens that can be written are those with a spelling. -/
theorem Token.spells_iff {t : Token} : (∃ s, t.Spells s) ↔ t.IsWritable := by
  constructor
  · rintro ⟨s, h⟩
    cases h with
    | keyword | symbol | text => trivial
    | ident hname hkeyword => exact ⟨hname, hkeyword⟩
    | int h hn | long h hn =>
      show 0 ≤ _
      omega
    | decimal h => exact h
    | quoted hword hbody => exact hbody
  · -- Numbers are written with as few digits as they have, and marks with small letters.
    intro h
    have hdigits : ∀ n : Int64, 0 ≤ n.toInt →
        Text.IsNumeral (String.ofList (Nat.toDigits 10 n.toInt.toNat)).toList ∧
          (numberOf (String.ofList (Nat.toDigits 10 n.toInt.toNat)).toList : Int) = n.toInt := by
      intro n hn
      rw [String.toList_ofList]
      refine ⟨Text.isNumeral_toDigits _, ?_⟩
      have hnumber : numberOf (Nat.toDigits 10 n.toInt.toNat) = n.toInt.toNat :=
        Nat.ofDigitChars_ten_toDigits
      omega
    cases t with
    | keyword k => exact ⟨_, .keyword k⟩
    | symbol s => exact ⟨_, .symbol s⟩
    | quoted kind body => exact ⟨_, .quoted kind.ofWord?_word h⟩
    | ident name => exact ⟨_, .ident h.1 h.2⟩
    | text value => exact ⟨_, .text value⟩
    | int n => exact ⟨_, .int (hdigits n h).1 (hdigits n h).2⟩
    | long n => exact ⟨_, .long (hdigits n h).1 (hdigits n h).2 (.inl rfl)⟩
    | decimal digits => exact ⟨_, .decimal h (.inl rfl)⟩
    | double x => exact h.elim

/-! ## The front of a text -/

namespace Lexeme

variable {c : Char} {cs rest : List Char}

/-- A text has ended, or goes on with a character that prolongs no token. -/
def Stops : List Char → Prop
  | [] => True
  | c :: _ => isNamePart c = false ∧ c ≠ quote ∧ c ≠ '.'

/-- A space prolongs no token. -/
theorem stops_space (rest : List Char) : Stops (' ' :: rest) := by
  refine ⟨?_, ?_, ?_⟩ <;> decide

/-- The characters of a kind that a text begins with end where one of another kind follows. -/
theorem takeWhile_append {p : Char → Bool} (hcs : ∀ d ∈ cs, p d = true)
    (hrest : ∀ d ∈ rest.head?, p d = false) : (cs ++ rest).takeWhile p = cs := by
  have hnone : rest.takeWhile p = [] := by
    cases rest with
    | nil => rfl
    | cons d rest =>
      have hd := hrest d rfl
      simp [hd]
  rw [List.takeWhile_append_of_pos hcs, hnone, List.append_nil]

/-- The characters of a kind that a text begins with end before one of another kind. -/
theorem takeWhile_before {p : Char → Bool} (hcs : ∀ d ∈ cs, p d = true) {d : Char}
    (hd : p d = false) (rest : List Char) : (cs ++ d :: rest).takeWhile p = cs := by
  apply takeWhile_append hcs
  intro e he
  obtain rfl : d = e := Option.some.inj he
  exact hd

/-- Where a text stops, no character follows of a kind that names are made of. -/
theorem Stops.head {p : Char → Bool} (h : Stops rest) (hp : ∀ d, p d = true → isNamePart d = true) :
    ∀ d ∈ rest.head?, p d = false := by
  intro d hd
  cases rest with
  | nil => cases hd
  | cons d' rest =>
    obtain rfl : d' = d := Option.some.inj hd
    refine Bool.eq_false_iff.mpr fun hpd => ?_
    have hpart := hp d' hpd
    rw [h.1] at hpart
    cases hpart

/-- Where a text stops, no letter follows. -/
theorem Stops.beginsWithLetter_eq_false (h : Stops rest) (lower upper : Char)
    (hlower : isNamePart lower = true) (hupper : isNamePart upper = true) :
    beginsWithLetter lower upper rest = false := by
  have hne : ∀ d ∈ rest.head?, d ≠ lower ∧ d ≠ upper := by
    intro d hd
    have hpart := h.head (p := isNamePart) (fun _ h => h) d hd
    constructor
    · rintro rfl
      rw [hlower] at hpart
      cases hpart
    · rintro rfl
      rw [hupper] at hpart
      cases hpart
  cases rest with
  | nil => rfl
  | cons d rest =>
    obtain ⟨hl, hu⟩ := hne d rfl
    simp [beginsWithLetter, hl, hu]

/-- A character of a kind that has no space is no space. -/
theorem isSpace_eq_false {p : Char → Bool} (h : p c = true)
    (hp : [' ', '\t', '\r', '\n'].any p = false) : isSpace c = false := by
  have hne : ∀ d ∈ [' ', '\t', '\r', '\n'], c ≠ d := by
    rintro d hd rfl
    exact List.any_eq_false.mp hp c hd h
  simpa [isSpace, and_assoc] using hne

/-! ### Words -/

/-- A letter or an underscore is no space, no quote and no digit. -/
theorem isNameStart_distinct (h : isNameStart c = true) :
    isSpace c = false ∧ c ≠ quote ∧ c.isDigit = false := by
  refine ⟨isSpace_eq_false h (by decide), ?_, ?_⟩
  · rintro rfl
    exact absurd h (by decide)
  · -- The digits come before the letters and the underscore.
    have hleast : 65 ≤ c.toNat := by
      have hcases : ((c.isUpper || c.isLower) || c == '_') = true := h
      rw [Bool.or_eq_true, Bool.or_eq_true, beq_iff_eq] at hcases
      rcases hcases with (hupper | hlower) | rfl
      · exact (of_decide_eq_true hupper).1
      · have hletter : 97 ≤ c.toNat := of_decide_eq_true (Bool.and_eq_true_iff.mp hlower).1
        omega
      · decide
    rw [Bool.eq_false_iff]
    intro hdigit
    have hmost : c.toNat ≤ 57 := (Char.isDigit_iff_toNat.mp hdigit).2
    omega

/-- What begins with a letter or an underscore is a word. -/
theorem kindAt_nameStart (h : isNameStart c = true) (cs : List Char) : kindAt c cs = word c cs := by
  obtain ⟨hspace, hquote, hdigit⟩ := isNameStart_distinct h
  simp [kindAt, hspace, hquote, hdigit, h]

/-- A word is read up to where the text stops. -/
theorem word_stops (hcs : ∀ d ∈ cs, isNamePart d = true) (hrest : Stops rest) :
    word c (cs ++ rest) = (.token (wordToken (String.ofList (c :: cs))), cs.length) := by
  have hmore := takeWhile_append hcs (hrest.head fun _ h => h)
  have hafter : (cs ++ rest).drop cs.length = rest := List.drop_left
  unfold word
  simp only [hmore, hafter]
  split
  next kind rest' hkind hquote =>
    -- What follows is no quote.
    exact absurd rfl hrest.2.1
  next => rfl

/-- What stands before the next quote is the body of a literal. -/
theorem literalBody_append {body : List Char} (h : quote ∉ body) (rest : List Char) :
    literalBody (body ++ quote :: rest) = some (body, body.length + 1) := by
  have hother : ∀ d ∈ body, (d != quote) = true := by
    intro d hd
    have hne : d ≠ quote := fun heq => h (heq ▸ hd)
    simpa using hne
  have hbody := takeWhile_before hother (d := quote) (by simp) rest
  simp [literalBody, hbody]

/-- A word that announces a literal is read with the literal. -/
theorem word_quoted {kind : LiteralKind} {body : List Char} (hcs : ∀ d ∈ cs, isNamePart d = true)
    (hkind : LiteralKind.ofWord? (String.ofList (c :: cs)) = some kind) (hbody : quote ∉ body)
    (rest : List Char) :
    word c (cs ++ quote :: (body ++ quote :: rest)) =
      (.token (.quoted kind (String.ofList body)), cs.length + 1 + (body.length + 1)) := by
  have hmore : (cs ++ quote :: (body ++ quote :: rest)).takeWhile isNamePart = cs :=
    takeWhile_before hcs (by decide) _
  have hafter : (cs ++ quote :: (body ++ quote :: rest)).drop cs.length =
      '\x27' :: (body ++ quote :: rest) := List.drop_left
  unfold word
  simp only [hmore, hafter, hkind, literalBody_append hbody]

/-! ### Numbers -/

/-- A digit is no space and no quote. -/
theorem isDigit_distinct (h : c.isDigit = true) : isSpace c = false ∧ c ≠ quote := by
  refine ⟨isSpace_eq_false h (by decide), ?_⟩
  rintro rfl
  exact absurd h (by decide)

/-- What begins with a digit is a number. -/
theorem kindAt_digit (h : c.isDigit = true) (cs : List Char) : kindAt c cs = number c cs := by
  obtain ⟨hspace, hquote⟩ := isDigit_distinct h
  simp [kindAt, hspace, hquote, h]

/-- Digits that form a number of 64 bits are the number. -/
theorem whole?_eq {token : Int64 → Token} {digits : List Char} {n : Int64}
    (h : numberOf digits = n.toInt) : whole? token digits = .token (token n) := by
  have hle : numberOf digits ≤ Int64.maxValue.toInt.toNat := by
    have hmost := n.toInt_le
    omega
  have hn : Int64.ofNat (numberOf digits) = n := by
    rw [← Int64.ofInt_toInt n, ← h]
    rfl
  unfold whole?
  rw [if_pos hle, hn]

variable (hcs : ∀ d ∈ cs, d.isDigit = true)
include hcs

/-- A number is read up to where the text stops. -/
theorem number_stops (hrest : Stops rest) :
    number c (cs ++ rest) = (whole? .int (c :: cs), cs.length) := by
  have hmore := takeWhile_append hcs (hrest.head fun d hd => by rw [isNamePart, hd, Bool.or_true])
  -- Neither a fraction nor an exponent nor a mark follows.
  have hfraction : fractionDigits rest = [] := by
    unfold fractionDigits
    split
    next => exact absurd rfl hrest.2.2
    next => rfl
  have hexponent : exponent? rest = none := by
    have hletter := hrest.beginsWithLetter_eq_false 'e' 'E' rfl rfl
    cases rest with
    | nil => rfl
    | cons d more =>
      have hne : ¬(d = 'e' ∨ d = 'E') := by simpa [beginsWithLetter] using hletter
      unfold exponent?
      exact if_neg hne
  have hdecimal := hrest.beginsWithLetter_eq_false 'm' 'M' rfl rfl
  have hlong := hrest.beginsWithLetter_eq_false 'l' 'L' rfl rfl
  simp [number, hmore, hfraction, hexponent, hdecimal, hlong]

/-- A number is read with the letter that marks it as a long one. -/
theorem number_long {mark : Char} (hmark : mark = 'l' ∨ mark = 'L') (rest : List Char) :
    number c (cs ++ mark :: rest) = (whole? .long (c :: cs), cs.length + 1) := by
  have hmore : (cs ++ mark :: rest).takeWhile Char.isDigit = cs := by
    apply takeWhile_before hcs
    rcases hmark with rfl | rfl <;> decide
  rcases hmark with rfl | rfl
  · simp [number, hmore, fractionDigits, beginsWithLetter, exponent?]
  · simp [number, hmore, fractionDigits, beginsWithLetter, exponent?]

/-- A numeral is read with the letter that marks it as a decimal. -/
theorem number_decimal {mark : Char} (hmark : mark = 'm' ∨ mark = 'M') (rest : List Char) :
    number c (cs ++ mark :: rest) =
      (.token (.decimal (String.ofList (c :: cs))), cs.length + 1) := by
  have hmore : (cs ++ mark :: rest).takeWhile Char.isDigit = cs := by
    apply takeWhile_before hcs
    rcases hmark with rfl | rfl <;> decide
  rcases hmark with rfl | rfl
  · simp [number, hmore, fractionDigits, beginsWithLetter]
  · simp [number, hmore, fractionDigits, beginsWithLetter]

/-- Two numerals with a point between them are read with the letter that marks them as a
decimal. -/
theorem number_fraction {mark : Char} (hmark : mark = 'm' ∨ mark = 'M') {more : List Char}
    (hmore : ∀ d ∈ more, d.isDigit = true) (hne : more ≠ []) (rest : List Char) :
    number c (cs ++ '.' :: (more ++ mark :: rest)) =
      (.token (.decimal (String.ofList (c :: cs ++ '.' :: more))),
        cs.length + more.length + 2) := by
  have hwhole : (cs ++ '.' :: (more ++ mark :: rest)).takeWhile Char.isDigit = cs :=
    takeWhile_before hcs (by decide) _
  have hfraction : (more ++ mark :: rest).takeWhile Char.isDigit = more := by
    apply takeWhile_before hmore
    rcases hmark with rfl | rfl <;> decide
  rcases hmark with rfl | rfl
  · simp [number, hwhole, hfraction, hne, fractionDigits, beginsWithLetter]
    omega
  · simp [number, hwhole, hfraction, hne, fractionDigits, beginsWithLetter]
    omega

omit hcs

/-! ### Texts -/

/-- A text with doubled quotes is read back up to its closing quote, where no other follows. -/
theorem textBody_doubled (body : List Char) (hrest : Stops rest) :
    textBody (doubled body ++ quote :: rest) = some (body, (doubled body).length + 1) := by
  induction body with
  | nil =>
    cases rest with
    | nil => rfl
    | cons d more =>
      have hsingle : ∀ cs, d :: more ≠ '\x27' :: cs := fun cs heq => hrest.2.1 (List.cons.inj heq).1
      show textBody ('\x27' :: d :: more) = _
      rw [textBody]
      · rfl
      · exact hsingle
  | cons c body ih =>
    by_cases hc : c = quote
    · subst hc
      show (textBody (doubled body ++ quote :: rest)).map _ = _
      rw [ih]
      simp [doubled_quote]
    · rw [doubled_cons hc, List.cons_append, textBody]
      · rw [ih]
        rfl
      · intro _ heq
        exact absurd heq hc
      · exact hc

/-- What begins with a quote is a text, if it is closed. -/
theorem kindAt_quote {body : List Char} {n : Nat} (h : textBody cs = some (body, n)) :
    kindAt quote cs = (.token (.text (String.ofList body)), n) := by
  have hspace : isSpace quote = false := rfl
  simp [kindAt, hspace, h]

/-! ### Tokens -/

/-- Keywords are made of letters. -/
theorem isName_spelling (k : Keyword) : Text.IsName k.spelling.toList := by
  cases k with
  | relational op => cases op <;> decide
  | logical op => cases op <;> decide
  | not => decide
  | arithmetic op => cases op <;> decide
  | direction d => cases d <;> decide
  | bool b => cases b <;> decide
  | null => decide

/-- Words that announce a literal are made of letters. -/
theorem isName_of_ofWord? {w : String} {kind : LiteralKind}
    (h : LiteralKind.ofWord? w = some kind) : Text.IsName w.toList := by
  unfold LiteralKind.ofWord? at h
  split at h <;> first | decide | cases h

/-- At the front of a text, a name is read as the token of the word. -/
theorem kindAt_name {name : String} (h : Text.IsName name.toList) (hrest : Stops rest) :
    ∃ c cs, name.toList = c :: cs ∧ isSpace c = false ∧
      kindAt c (cs ++ rest) = (.token (wordToken name), cs.length) := by
  obtain ⟨c, cs, hname, hstart, hparts⟩ := h.eq_cons
  refine ⟨c, cs, hname, (isNameStart_distinct hstart).1, ?_⟩
  rw [kindAt_nameStart hstart, word_stops hparts hrest, ← hname, String.ofList_toList]

/-- At the front of a text, a token is read from its spelling, which begins with no space. -/
theorem kindAt_spells {t : Token} {s : String} (h : t.Spells s) (hrest : Stops rest) :
    ∃ c cs, s.toList = c :: cs ∧ isSpace c = false ∧
      kindAt c (cs ++ rest) = (.token t, cs.length) := by
  cases h with
  | keyword k =>
    have hword : wordToken k.spelling = .keyword k := by
      rw [wordToken, k.ofSpelling?_spelling]
    rw [← hword]
    exact kindAt_name (isName_spelling k) hrest
  | symbol s =>
    refine ⟨s.char, [], String.toList_singleton _, ?_, ?_⟩ <;> cases s <;> rfl
  | ident hname hkeyword =>
    have hword : wordToken s = .ident s := by
      have hnone : Keyword.ofSpelling? s = none :=
        List.find?_eq_none.mpr fun k _ heq => hkeyword k (eq_of_beq heq)
      rw [wordToken, hnone]
    rw [← hword]
    exact kindAt_name hname hrest
  | text value =>
    refine ⟨quote, doubled value.toList ++ [quote], String.toList_ofList, rfl, ?_⟩
    have hbody := textBody_doubled value.toList hrest
    rw [List.append_assoc, List.singleton_append, kindAt_quote hbody, String.ofList_toList]
    simp
  | int hdigits hn =>
    obtain ⟨c, cs, hs, hc, hcs⟩ := hdigits.eq_cons
    rw [hs] at hn
    refine ⟨c, cs, hs, (isDigit_distinct hc).1, ?_⟩
    rw [kindAt_digit hc, number_stops hcs hrest, whole?_eq hn]
  | @long n digits mark hdigits hn hmark =>
    obtain ⟨c, cs, hs, hc, hcs⟩ := hdigits.eq_cons
    rw [hs] at hn
    refine ⟨c, cs ++ [mark], ?_, (isDigit_distinct hc).1, ?_⟩
    · rw [String.toList_push, hs]
      rfl
    · rw [List.append_assoc, List.singleton_append, kindAt_digit hc, number_long hcs hmark,
        whole?_eq hn, List.length_append]
      rfl
  | @decimal digits mark hdigits hmark =>
    generalize hs : digits.toList = text at hdigits
    cases hdigits with
    | whole hwhole =>
      obtain ⟨c, cs, rfl, hc, hcs⟩ := hwhole.eq_cons
      refine ⟨c, cs ++ [mark], ?_, (isDigit_distinct hc).1, ?_⟩
      · rw [String.toList_push, hs]
        rfl
      · rw [List.append_assoc, List.singleton_append, kindAt_digit hc, number_decimal hcs hmark,
          ← hs, String.ofList_toList, List.length_append]
        rfl
    | @fraction _ more hwhole hmore =>
      obtain ⟨c, cs, rfl, hc, hcs⟩ := hwhole.eq_cons
      refine ⟨c, cs ++ '.' :: (more ++ [mark]), ?_, (isDigit_distinct hc).1, ?_⟩
      · rw [String.toList_push, hs]
        simp
      · have happend : cs ++ '.' :: (more ++ [mark]) ++ rest =
            cs ++ '.' :: (more ++ mark :: rest) := by simp
        rw [happend, kindAt_digit hc, number_fraction hcs hmark hmore.2 hmore.1, ← hs,
          String.ofList_toList]
        simp
        omega
  | @quoted kind word body hword hbody =>
    obtain ⟨c, cs, hs, hstart, hparts⟩ := (isName_of_ofWord? hword).eq_cons
    have hkind : LiteralKind.ofWord? (String.ofList (c :: cs)) = some kind := by
      rw [← hs, String.ofList_toList]
      exact hword
    refine ⟨c, cs ++ quote :: (body.toList ++ [quote]), ?_, (isNameStart_distinct hstart).1, ?_⟩
    · simp [hs]
      rfl
    · have happend : cs ++ quote :: (body.toList ++ [quote]) ++ rest =
          cs ++ quote :: (body.toList ++ quote :: rest) := by simp
      rw [happend, kindAt_nameStart hstart, word_quoted hparts hkind hbody, String.ofList_toList]
      simp
      omega

/-! ## Texts of tokens -/

/-- The first lexeme of a text that begins with a spelling is the token. -/
theorem startingAt_spells {t : Token} {s : String} (h : t.Spells s) (hrest : Stops rest)
    (offset : Nat) : ∃ l, l.token? = some t ∧ startingAt offset (s.toList ++ rest) =
      l :: startingAt (offset + Text.byteLength s.toList) rest := by
  obtain ⟨c, cs, hs, -, hkind⟩ := kindAt_spells h hrest
  have htake : (cs ++ rest).take cs.length = cs := List.take_left
  have hdrop : (cs ++ rest).drop cs.length = rest := List.drop_left
  refine ⟨⟨some t, s.toList, ⟨offset, offset + Text.byteLength s.toList⟩⟩, rfl, ?_⟩
  rw [hs, List.cons_append, startingAt, hkind]
  simp only [htake, hdrop]

/-- A symbol is a lexeme whatever follows. -/
theorem startingAt_symbol (s : Symbol) (offset : Nat) (rest : List Char) :
    ∃ l, l.token? = some (.symbol s) ∧
      startingAt offset (s.char :: rest) =
        l :: startingAt (offset + Text.byteLength [s.char]) rest := by
  have hkind : kindAt s.char rest = (.token (.symbol s), 0) := by
    cases s <;> rfl
  refine ⟨⟨some (.symbol s), [s.char], ⟨offset, offset + Text.byteLength [s.char]⟩⟩, rfl, ?_⟩
  rw [startingAt, hkind]
  rfl

/-- A space before another character is passed over alone. -/
theorem startingAt_space (h : isSpace c = false) (offset : Nat) :
    startingAt offset (' ' :: c :: cs) = startingAt (offset + 1) (c :: cs) := by
  have hnone : (c :: cs).takeWhile isSpace = [] := by
    simp [h]
  have hkind : kindAt ' ' (c :: cs) = (.blank, 0) := by
    have hspace : isSpace ' ' = true := rfl
    unfold kindAt
    rw [if_pos hspace, hnone]
    rfl
  rw [startingAt, hkind]
  rfl

/-- The one lexeme of a spelling is the token. -/
theorem reads_spelling {t : Token} {s : String} (h : t.Spells s) (offset : Nat) :
    Reads (startingAt offset s.toList) [t] [] := by
  have hstops : Stops [] := trivial
  obtain ⟨l, hl, hstart⟩ := startingAt_spells h hstops offset
  have hnone : startingAt (offset + Text.byteLength s.toList) [] = [] := by
    rw [startingAt]
  rw [List.append_nil, hnone] at hstart
  rw [hstart]
  exact .singleton hl

/-- The lexemes of spellings with single spaces between them are the tokens. -/
theorem reads_spellings {ts : List Token} {spellings : List String}
    (h : List.Forall₂ Token.Spells ts spellings) (offset : Nat) :
    Reads (startingAt offset ([' '].intercalate (spellings.map String.toList))) ts [] := by
  induction h generalizing offset with
  | nil =>
    have hnone : startingAt offset [] = [] := by
      rw [startingAt]
    show Reads (startingAt offset []) [] []
    rw [hnone]
    exact .nil []
  | @cons t s ts spellings ht hts ih =>
    cases hts with
    | nil =>
      have htext : [' '].intercalate ([s].map String.toList) = s.toList := by
        simp [List.intercalate]
      rw [htext]
      exact reads_spelling ht offset
    | @cons t' s' ts spellings ht' hts =>
      -- The spelling is followed by a space, and that by the first character of the next one.
      have htext : [' '].intercalate ((s :: s' :: spellings).map String.toList) =
          s.toList ++ ' ' :: [' '].intercalate ((s' :: spellings).map String.toList) := by
        simp [List.intercalate]
      have hstops := stops_space ([' '].intercalate ((s' :: spellings).map String.toList))
      obtain ⟨l, hl, hstart⟩ := startingAt_spells ht hstops offset
      obtain ⟨c, cs, hs', hspace, -⟩ := kindAt_spells ht' hstops
      have hnext : ∃ more, [' '].intercalate ((s' :: spellings).map String.toList) = c :: more := by
        cases spellings <;> simp [List.intercalate, hs']
      obtain ⟨more, hmore⟩ := hnext
      have hrest := ih (offset + Text.byteLength s.toList + 1)
      rw [hmore] at hrest hstart htext
      rw [htext, hstart, startingAt_space hspace]
      exact .cons hl hrest

end Lexeme

/-- Tokens that are written with single spaces between them are read back, in any of their
spellings; the tokens with a spelling are all but numbers of double precision, names that are
keywords or no names, negative numbers, decimals that are no numerals, and quoted literals with a
quote inside. The other way round, the bytes of a text in the span of a text token are its value in
quotes, with quotes inside doubled, also where other pieces of the text are no tokens. -/
theorem tokenize_spellings :
    (∀ ts spellings, List.Forall₂ Token.Spells ts spellings →
      ∃ tokens, tokenize (" ".intercalate spellings) = .ok tokens ∧ tokens.map (·.value) = ts) ∧
    (∀ t : Token, (∃ s, t.Spells s) ↔ t.IsWritable) ∧
    ∀ source, ∀ l ∈ Lexeme.all source, ∀ v span, l.token = .ok ⟨.text v, span⟩ →
      source.toUTF8.extract span.start span.stop = (Expr.quotedLiteral v).toUTF8 := by
  refine ⟨?_, fun _ => Token.spells_iff, ?_⟩
  · intro ts spellings h
    have hreads := Lexeme.reads_spellings h 0
    have htext : (" ".intercalate spellings).toList =
        [' '].intercalate (spellings.map String.toList) := String.toList_intercalate
    rw [← htext] at hreads
    exact mapM_token_eq_ok.mpr hreads
  · intro source l hl v span htoken
    obtain ⟨hvalue, hspan⟩ := Lexeme.token_eq_ok.mp htoken
    obtain rfl : span = l.span := hspan
    rw [Lexeme.extract_span hl, Lexeme.chars_eq_quotedLiteral hl hvalue]

/-- A condition is read back token by token: names beside keywords, a text with a quote inside, a
name beside a literal that a word announces, and numbers of both sizes. A text literal alone stands
in its span as it is written. -/
theorem Lexeme.condition_tokens :
    (∃ tokens, tokenize "name eq 'it''s' and guid eq x'0A' or - 5 lt 7L" = .ok tokens ∧
      tokens.map (·.value) =
        [.ident "name", .keyword (.relational .eq), .text "it's", .keyword (.logical .and),
          .ident "guid", .keyword (.relational .eq), .quoted .binary "0A", .keyword (.logical .or),
          .symbol .minus, .int 5, .keyword (.relational .lt), .long 7]) ∧
    ∃ l ∈ all "'it''s'", l.token? = some (.text "it's") ∧
      "'it''s'".toUTF8.extract l.span.start l.span.stop = "'it''s'".toUTF8 := by
  obtain ⟨hread, -, hslice⟩ := tokenize_spellings
  have hname : ∀ name, Keyword.ofSpelling? name = none → ∀ k : Keyword, k.spelling ≠ name := by
    rintro name hnone k rfl
    rw [k.ofSpelling?_spelling] at hnone
    cases hnone
  have hquoted : Expr.quotedLiteral "it's" = "'it''s'" := by decide
  have htext : Token.Spells (.text "it's") "'it''s'" := hquoted ▸ .text "it's"
  have hbinary : Token.Spells (.quoted .binary "0A") "x'0A'" := by
    have hspells := Token.Spells.quoted (show LiteralKind.ofWord? "x" = some .binary from rfl)
      (show quote ∉ "0A".toList by decide)
    exact hspells
  have hfive : Text.IsNumeral "5".toList := ⟨by decide, by simp⟩
  have hlong : Token.Spells (.long 7) "7L" := by
    have hseven : Text.IsNumeral "7".toList := ⟨by decide, by simp⟩
    have hspells : Token.Spells (.long 7) ("7".push 'L') := .long hseven (by decide) (.inr rfl)
    exact hspells
  constructor
  · have hspells : List.Forall₂ Token.Spells
        [.ident "name", .keyword (.relational .eq), .text "it's", .keyword (.logical .and),
          .ident "guid", .keyword (.relational .eq), .quoted .binary "0A", .keyword (.logical .or),
          .symbol .minus, .int 5, .keyword (.relational .lt), .long 7]
        ["name", "eq", "'it''s'", "and", "guid", "eq", "x'0A'", "or", "-", "5", "lt", "7L"] :=
      .cons (.ident (by decide) (hname _ (by decide))) <| .cons (.keyword _) <| .cons htext <|
        .cons (.keyword _) <| .cons (.ident (by decide) (hname _ (by decide))) <|
        .cons (.keyword _) <| .cons hbinary <| .cons (.keyword _) <| .cons (.symbol .minus) <|
        .cons (.int hfive (by decide)) <| .cons (.keyword _) <|
        .cons hlong .nil
    exact hread _ _ hspells
  · have hstops : Stops [] := trivial
    obtain ⟨l, hl, hstart⟩ := startingAt_spells htext hstops 0
    rw [List.append_nil] at hstart
    have hmem : l ∈ all "'it''s'" := by
      unfold all
      rw [hstart]
      exact List.mem_cons_self
    have hbytes := hslice _ l hmem "it's" l.span (Lexeme.token_eq_ok.mpr ⟨hl, rfl⟩)
    rw [hquoted] at hbytes
    exact ⟨l, hmem, hl, hbytes⟩

end EntityQuery
