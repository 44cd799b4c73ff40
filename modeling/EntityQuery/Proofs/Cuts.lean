import EntityQuery.Proofs.NumberRules

/-!
# Texts are cut by the longest rule

Of the texts with a rule that a text begins with, the longest one is cut off, and a word that is
both a keyword and a name is the keyword. What has no rule is cut off as one character that is no
token. There is one exception, which longest matching alone would not make: a quoted literal that is
not closed is cut off as a whole, with the word that announces it. So `guid'0` is one piece and not
the name `guid` with a piece behind it, and `'a''` is one piece and not the text `'a'` with a quote
behind it.

`Lexeme.Cut` says this without an order of reading, and `Lexeme.cut_iff` that it is what the lexer
cuts off, no more and no less. Two halves make it up: what is taken has a rule
(`Lexeme.Begins.byRule`), and no rule has a longer text (`Lexeme.fits_of_rule`). The lexemes of a
whole text are its cuts one after another (`Lexeme.isCutInto_iff`).
-/

namespace EntityQuery.Lexeme

/-- What is cut off from the front of a text, and of which kind it is. -/
inductive Cut (text : List Char) : Kind → List Char → Prop
  /-- All blanks that the text begins with. -/
  | blank {front rest : List Char} (htext : text = front ++ rest) (hne : front ≠ [])
      (hfront : ∀ c ∈ front, isSpace c = true) (hrest : ∀ c ∈ rest.head?, isSpace c = false) :
      Cut text .blank front
  /-- The longest text with a rule, as a keyword rather than a name. -/
  | rule {front : List Char} {outcome : Option Token} (hfront : front <+: text)
      (hrule : Token.Rule front outcome)
      (hlongest : ∀ longer o, longer <+: text → Token.Rule longer o →
        longer.length ≤ front.length)
      (hkeyword : ∀ name, outcome = some (.ident name) → Keyword.ofSpelling? name = none)
      (hterminated : ¬Unterminated text) : Cut text (.ofOutcome outcome) front
  /-- All of a literal that is not closed. -/
  | unterminated (h : Unterminated text) : Cut text .unrecognized text
  /-- One character, where no rule has a text that the text begins with. -/
  | stray {c : Char} {rest : List Char} (htext : text = c :: rest) (hspace : isSpace c = false)
      (hnone : ∀ front o, front <+: text → ¬Token.Rule front o)
      (hterminated : ¬Unterminated text) : Cut text .unrecognized [c]

variable {c : Char} {cs rest : List Char}

/-- A character begins texts that have a rule: it is a quote, a digit, a letter or an underscore, or
a symbol. -/
def Begins (c : Char) : Prop :=
  c = quote ∨ c.isDigit = true ∨ isNameStart c = true ∨ ∃ s : Symbol, c = s.char

/-! ## No rule has a longer text -/

/-- A symbol is read alone. -/
theorem kindAt_symbol (s : Symbol) (cs : List Char) :
    kindAt s.char cs = (.token (.symbol s), 0) := by
  cases s <;> rfl

/-- A text with a rule begins with such a character, and fits into what is read where a text begins
with it, unless a literal there is not closed. -/
theorem fits_of_rule {front : List Char} {outcome : Option Token} (h : Token.Rule front outcome) :
    ∃ c more, front = c :: more ∧ Begins c ∧ ∀ rest, ¬Unterminated (c :: (more ++ rest)) →
      Fits (c :: more) outcome (kindAt c (more ++ rest)) := by
  cases h with
  | keyword k =>
    obtain ⟨c, more, hname, hstart, hmore⟩ := (isName_spelling k).eq_cons
    refine ⟨c, more, hname, .inr (.inr (.inl hstart)), fun rest _ => ?_⟩
    rw [kindAt_nameStart hstart]
    refine word_fits hmore (fun _ => ?_) rest
    rw [← hname, String.ofList_toList, wordToken, k.ofSpelling?_spelling]
  | symbol s =>
    exact ⟨s.char, [], rfl, .inr (.inr (.inr ⟨s, rfl⟩)), fun rest _ =>
      .of_eq (kindAt_symbol s rest) rfl⟩
  | @quoted kind name body hword hbody =>
    obtain ⟨c, more, hname, hstart, hmore⟩ := (isName_of_ofWord? hword).eq_cons
    have hkind : LiteralKind.ofWord? (String.ofList (c :: more)) = some kind := by
      rwa [← hname, String.ofList_toList]
    refine ⟨c, more ++ quote :: (body ++ [quote]), by rw [hname]; rfl, .inr (.inr (.inl hstart)),
      fun rest _ => ?_⟩
    have happend : more ++ quote :: (body ++ [quote]) ++ rest =
        more ++ quote :: (body ++ quote :: rest) := by simp
    rw [happend, kindAt_nameStart hstart]
    refine .of_eq (word_quoted hmore hkind hbody rest) ?_
    simp
    omega
  | name h =>
    obtain ⟨c, more, rfl, hstart, hmore⟩ := h.eq_cons
    refine ⟨c, more, rfl, .inr (.inr (.inl hstart)), fun rest _ => ?_⟩
    rw [kindAt_nameStart hstart]
    refine word_fits hmore (fun hident => ?_) rest
    rw [wordToken, hident _ rfl]
  | text value =>
    refine ⟨quote, doubled value ++ [quote], rfl, .inl rfl, fun rest hopen => ?_⟩
    rw [List.append_assoc, List.singleton_append] at hopen ⊢
    cases hbody : textBody (doubled value ++ quote :: rest) with
    | none =>
      obtain ⟨value', hvalue⟩ := textBody_eq_none_iff.mp hbody
      rw [hvalue] at hopen
      exact absurd (.text value') hopen
    | some read =>
      obtain ⟨body, n⟩ := read
      rw [kindAt_quote hbody]
      exact text_fits value rest hbody
  | int h hn =>
    obtain ⟨c, more, rfl, hdigit, hmore⟩ := h.eq_cons
    refine ⟨c, more, rfl, .inr (.inl hdigit), fun rest _ => ?_⟩
    rw [kindAt_digit hdigit]
    exact number_fits_int hmore hn rest
  | @long _ mark _ h hmark hn =>
    obtain ⟨c, more, rfl, hdigit, hmore⟩ := h.eq_cons
    refine ⟨c, more ++ [mark], rfl, .inr (.inl hdigit), fun rest _ => ?_⟩
    rw [List.append_assoc, List.singleton_append, kindAt_digit hdigit, number_long hmore hmark,
      whole?_eq_ofOutcome hn]
    exact .of_eq rfl (by simp)
  | decimal h hmark =>
    obtain ⟨c, more, hfront, hdigit, hfits⟩ := fits_decimal h hmark
    refine ⟨c, more, hfront, .inr (.inl hdigit), fun rest _ => ?_⟩
    rw [kindAt_digit hdigit]
    exact hfits rest
  | double h hfraction hexponent hparts hmark =>
    obtain ⟨c, more, hfront, hdigit, hfits⟩ := fits_double h hfraction hexponent hparts hmark
    refine ⟨c, more, hfront, .inr (.inl hdigit), fun rest _ => ?_⟩
    rw [kindAt_digit hdigit]
    exact hfits rest

/-! ## What is taken -/

/-- Where a text with a rule can begin, one is read, unless a literal there is not closed. -/
theorem Begins.byRule (h : Begins c) (hopen : ¬Unterminated (c :: cs)) :
    isSpace c = false ∧ ByRule c cs (kindAt c cs) := by
  rcases h with rfl | hdigit | hstart | ⟨s, rfl⟩
  · refine ⟨rfl, ?_⟩
    cases hbody : textBody cs with
    | none =>
      obtain ⟨value, rfl⟩ := textBody_eq_none_iff.mp hbody
      exact absurd (.text value) hopen
    | some read =>
      obtain ⟨body, n⟩ := read
      rw [kindAt_quote hbody]
      obtain ⟨rest, rfl, rfl⟩ := textBody_eq_some hbody
      exact ⟨doubled body ++ [quote], rest, some _, by simp, by simp [Kind.ofOutcome], .text body⟩
  · rw [kindAt_digit hdigit]
    exact ⟨(isDigit_distinct hdigit).1, number_byRule hdigit cs⟩
  · obtain ⟨more, after, rfl, -, hmore, hafter⟩ := exists_run isNamePart cs
    rw [kindAt_nameStart hstart]
    exact ⟨(isNameStart_distinct hstart).1, (takesWord hmore hafter).byRule hstart hmore hopen⟩
  · refine ⟨by cases s <;> rfl, ?_⟩
    rw [kindAt_symbol]
    exact ⟨[], cs, some _, rfl, rfl, .symbol s⟩

/-- Blanks are read together. -/
theorem kindAt_space (hspace : isSpace c = true) (cs : List Char) :
    kindAt c cs = (.blank, (cs.takeWhile isSpace).length) := by
  unfold kindAt
  rw [if_pos hspace]

/-- A character that is no space and begins no text with a rule stands alone. -/
theorem kindAt_stray (hspace : isSpace c = false) (h : ¬Begins c) :
    kindAt c cs = (.unrecognized, 0) := by
  obtain ⟨hquote, hdigit, hstart, hsymbol⟩ : c ≠ quote ∧ ¬c.isDigit = true ∧
      ¬isNameStart c = true ∧ ¬∃ s : Symbol, c = s.char := by
    simpa [Begins] using h
  have hnone : Symbol.ofChar? c = none := by
    unfold Symbol.ofChar?
    split
    next => exact absurd ⟨.slash, rfl⟩ hsymbol
    next => exact absurd ⟨.comma, rfl⟩ hsymbol
    next => exact absurd ⟨.open, rfl⟩ hsymbol
    next => exact absurd ⟨.close, rfl⟩ hsymbol
    next => exact absurd ⟨.minus, rfl⟩ hsymbol
    next => rfl
  simp [kindAt, hspace, hquote, hdigit, hstart, hnone]

/-- A word that is read as a name is no keyword. -/
theorem ofSpelling?_of_kindAt {name : String} (hstart : isNameStart c = true)
    (h : (kindAt c cs).1 = .token (.ident name)) : Keyword.ofSpelling? name = none := by
  obtain ⟨more, after, rfl, -, hmore, hafter⟩ := exists_run isNamePart cs
  have htakes : TakesWord c more after (word c (more ++ after)) := takesWord hmore hafter
  rw [kindAt_nameStart hstart] at h
  generalize word c (more ++ after) = read at h htakes
  cases htakes with
  | unterminated | quoted => cases h
  | alone =>
    unfold wordToken at h
    split at h
    next => cases h
    next hnone =>
      cases h
      exact hnone

/-- What the lexer takes from the front of a text is what is cut off there. -/
theorem cut_kindAt (c : Char) (cs : List Char) :
    Cut (c :: cs) (kindAt c cs).1 (c :: cs.take (kindAt c cs).2) := by
  by_cases hopen : Unterminated (c :: cs)
  · rw [kindAt_unterminated hopen, List.take_length]
    exact .unterminated hopen
  · by_cases hbegins : Begins c
    · obtain ⟨-, front, rest, outcome, htext, hread, hrule⟩ := hbegins.byRule hopen
      rw [hread, htext, List.take_left]
      refine .rule ⟨rest, rfl⟩ hrule ?_ ?_ (htext ▸ hopen)
      · rintro longer o ⟨rest', hlonger⟩ h
        obtain ⟨d, more, rfl, -, hfits⟩ := fits_of_rule h
        rw [List.cons_append, ← htext] at hlonger
        obtain ⟨rfl, rfl⟩ := List.cons.inj hlonger
        have hle := (hfits rest' hopen).length_le
        rw [hread] at hle
        exact hle
      · rintro name rfl
        have hstart : isNameStart c = true := (isName_of_rule hrule).1
        exact ofSpelling?_of_kindAt hstart (congrArg Prod.fst hread)
    · cases hspace : isSpace c with
      | true =>
        obtain ⟨run, rest, rfl, hrun, hblank, hrest⟩ := exists_run isSpace cs
        rw [kindAt_space hspace, hrun, List.take_left]
        exact .blank rfl (List.cons_ne_nil _ _) (List.forall_mem_cons.mpr ⟨hspace, hblank⟩) hrest
      | false =>
        rw [kindAt_stray hspace hbegins, List.take_zero]
        refine .stray rfl hspace ?_ hopen
        rintro front o ⟨rest, htext⟩ hrule
        obtain ⟨d, more, rfl, hd, -⟩ := fits_of_rule hrule
        obtain ⟨rfl, -⟩ := List.cons.inj htext
        exact hbegins hd

/-- What is cut off from the front of a text is what the lexer takes there, and nothing else. -/
theorem cut_iff {kind : Kind} {front : List Char} :
    Cut (c :: cs) kind front ↔
      kind = (kindAt c cs).1 ∧ front = c :: cs.take (kindAt c cs).2 := by
  constructor
  · intro h
    generalize htext : c :: cs = text at h
    cases h with
    | @blank _ rest hblank hne hfront hrest =>
      obtain ⟨d, more, rfl⟩ := List.exists_cons_of_ne_nil hne
      obtain ⟨hspace, hmore⟩ := List.forall_mem_cons.mp hfront
      obtain ⟨rfl, hcs⟩ := List.cons.inj (htext.trans hblank)
      change cs = more ++ rest at hcs
      rw [kindAt_space hspace, hcs, takeWhile_append hmore hrest, List.take_left]
      exact ⟨rfl, rfl⟩
    | @rule _ outcome hfront hrule hlongest hkeyword hopen =>
      subst htext
      obtain ⟨rest, happend⟩ := hfront
      obtain ⟨d, more, rfl, hbegins, hfits⟩ := fits_of_rule hrule
      rw [List.cons_append] at happend
      obtain ⟨rfl, rfl⟩ := List.cons.inj happend
      obtain ⟨-, front', rest', outcome', hcs', hread, hrule'⟩ := hbegins.byRule hopen
      have hfits := hfits rest hopen
      have hle := hlongest (d :: front') outcome' ⟨rest', congrArg (d :: ·) hcs'.symm⟩ hrule'
      rw [hread] at hfits ⊢
      -- Both texts are the longest one.
      have hlength : (d :: more).length = (d :: front').length :=
        Nat.le_antisymm hfits.length_le hle
      have hsame : more = front' :=
        List.append_inj_left hcs' (Nat.succ.inj hlength)
      refine ⟨(hfits.kind_eq hlength hkeyword).symm, ?_⟩
      subst hsame
      dsimp only
      rw [List.take_left]
    | unterminated hopen =>
      subst htext
      rw [kindAt_unterminated hopen, List.take_length]
      exact ⟨rfl, rfl⟩
    | stray hstray hspace hnone hopen =>
      subst htext
      obtain ⟨rfl, rfl⟩ := List.cons.inj hstray
      have hbegins : ¬Begins c := by
        intro hbegins
        obtain ⟨-, front, rest, outcome, rfl, -, hrule⟩ := hbegins.byRule hopen
        exact hnone _ _ ⟨rest, rfl⟩ hrule
      rw [kindAt_stray hspace hbegins]
      exact ⟨rfl, rfl⟩
  · rintro ⟨rfl, rfl⟩
    exact cut_kindAt c cs

/-! ## Whole texts -/

/-- The text from an offset on is cut into lexemes, piece by piece from the front. Blanks are left
out. -/
inductive IsCutInto : Nat → List Char → List Lexeme → Prop
  | nil (offset : Nat) : IsCutInto offset [] []
  | blank {offset : Nat} {front rest : List Char} {ls : List Lexeme}
      (h : Cut (front ++ rest) .blank front)
      (hrest : IsCutInto (offset + Text.byteLength front) rest ls) :
      IsCutInto offset (front ++ rest) ls
  | token {offset : Nat} {front rest : List Char} {ls : List Lexeme} {t : Token}
      (h : Cut (front ++ rest) (.token t) front)
      (hrest : IsCutInto (offset + Text.byteLength front) rest ls) :
      IsCutInto offset (front ++ rest)
        (⟨some t, front, ⟨offset, offset + Text.byteLength front⟩⟩ :: ls)
  | unrecognized {offset : Nat} {front rest : List Char} {ls : List Lexeme}
      (h : Cut (front ++ rest) .unrecognized front)
      (hrest : IsCutInto (offset + Text.byteLength front) rest ls) :
      IsCutInto offset (front ++ rest)
        (⟨none, front, ⟨offset, offset + Text.byteLength front⟩⟩ :: ls)

/-- Nothing is cut off from an empty text. -/
theorem Cut.ne_nil {text front : List Char} {kind : Kind} (h : Cut text kind front) :
    text ≠ [] := by
  rintro rfl
  cases h with
  | blank htext hne => exact hne (List.append_eq_nil_iff.mp htext.symm).1
  | rule hfront hrule =>
    obtain ⟨c, more, rfl, -⟩ := fits_of_rule hrule
    exact absurd (List.prefix_nil.mp hfront) (List.cons_ne_nil _ _)
  | unterminated h =>
    generalize hnil : ([] : List Char) = text at h
    cases h with
    | text value => cases hnil
    | quoted => exact List.cons_ne_nil _ _ (List.append_eq_nil_iff.mp hnil.symm).2
  | stray htext => cases htext

/-- What is cut off from the front of a text, and what is left, are what the lexer takes and
leaves. -/
theorem Cut.exists_kindAt {front rest : List Char} {kind : Kind}
    (h : Cut (front ++ rest) kind front) :
    ∃ c cs n, front ++ rest = c :: cs ∧ kindAt c cs = (kind, n) ∧ front = c :: cs.take n ∧
      rest = cs.drop n := by
  obtain ⟨c, cs, htext⟩ := List.exists_cons_of_ne_nil h.ne_nil
  rw [htext] at h
  obtain ⟨rfl, rfl⟩ := cut_iff.mp h
  refine ⟨c, cs, (kindAt c cs).2, htext, rfl, rfl, ?_⟩
  have hsame := (List.cons.inj htext).2
  exact List.append_cancel_left (hsame.trans (List.take_append_drop _ cs).symm)

/-- A text is cut into its lexemes, and in no other way. -/
theorem isCutInto_iff {offset : Nat} {cs : List Char} {ls : List Lexeme} :
    IsCutInto offset cs ls ↔ ls = startingAt offset cs := by
  constructor
  · intro h
    induction h with
    | nil offset => rw [startingAt]
    | blank h _ ih | token h _ ih | unrecognized h _ ih =>
      obtain ⟨c, cs, n, htext, hkind, hfront, rfl⟩ := h.exists_kindAt
      rw [htext, startingAt, hkind, ih, hfront]
  · rintro rfl
    -- Where a piece is taken, it is cut off, and the rest is cut up after it.
    have hcut : ∀ {c : Char} {cs : List Char} {kind : Kind} {n : Nat}, kindAt c cs = (kind, n) →
        Cut (c :: cs.take n ++ cs.drop n) kind (c :: cs.take n) := by
      intro c cs kind n hkind
      have h := cut_kindAt c cs
      rw [hkind] at h
      rwa [List.cons_append, List.take_append_drop]
    have htext : ∀ {c : Char} {cs : List Char} (n : Nat),
        c :: cs = c :: cs.take n ++ cs.drop n := by
      simp
    induction offset, cs using startingAt.induct with
    | case1 offset =>
      rw [startingAt]
      exact .nil offset
    | case2 offset c cs n chars stop hkind ih =>
      rw [startingAt, hkind, htext n]
      exact .blank (hcut hkind) ih
    | case3 offset c cs n chars stop t hkind ih =>
      rw [startingAt, hkind, htext n]
      exact .token (hcut hkind) ih
    | case4 offset c cs n chars stop hkind ih =>
      rw [startingAt, hkind, htext n]
      exact .unrecognized (hcut hkind) ih

end EntityQuery.Lexeme
