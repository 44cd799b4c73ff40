import EntityQuery.Proofs.Literals

/-!
# The rules of the tokens

Tokens are declared by rules, each of which says what the texts of a token are and which token such
a text is read as; a whole number beyond 64 bits has a rule, but is refused (`Token.Rule`). A quoted
literal without its closing quote has none, and stands to the end of the text with the word that
announces it (`Lexeme.Unterminated`).

What is read at the front of a text is related to the rules in two ways. It is read by a rule
(`Lexeme.ByRule`), and the texts of other rules there fit into it (`Lexeme.Fits`), so that it is the
longest one. Both are shown here of texts and words; of numbers, which have the most rules, they are
shown in a module of their own.
-/

namespace EntityQuery

open Lexeme (quote isNamePart isNameStart isSpace numberOf doubled)

/-! ## Rules -/

namespace Text

/-- Digits form a whole number of 64 bits with a sign, or one beyond them. -/
inductive IsWhole (digits : List Char) : Option Int64 → Prop
  | fits {n : Int64} (h : numberOf digits = n.toInt) : IsWhole digits (some n)
  | beyond (h : Int64.maxValue.toInt < numberOf digits) : IsWhole digits none

/-- The digits after the point with the point, where there are some. -/
def fractionText (digits : List Char) : List Char := if digits = [] then [] else '.' :: digits

/-- The sign of an exponent, and whether it is negative. -/
inductive IsSign : Bool → List Char → Prop
  | none : IsSign false []
  | plus : IsSign false ['+']
  | minus : IsSign true ['-']

/-- A decimal exponent is a letter, a sign if there is one, and a numeral. -/
inductive IsExponent : Lexeme.Exponent → List Char → Prop
  | intro {letter : Char} {negative : Bool} {sign digits : List Char}
      (hletter : letter = 'e' ∨ letter = 'E') (hsign : IsSign negative sign)
      (hdigits : IsNumeral digits) :
      IsExponent ⟨negative, digits, 1 + sign.length + digits.length⟩ (letter :: (sign ++ digits))

/-- An exponent, or none and no text. -/
inductive IsExponent? : Option Lexeme.Exponent → List Char → Prop
  | none : IsExponent? none []
  | some {e : Lexeme.Exponent} {text : List Char} (h : IsExponent e text) :
      IsExponent? (some e) text

end Text

/-- A text has a rule, by which it is read as a token or refused. -/
inductive Token.Rule : List Char → Option Token → Prop
  | keyword (k : Keyword) : Rule k.spelling.toList (some (.keyword k))
  | symbol (s : Symbol) : Rule [s.char] (some (.symbol s))
  /-- What a word announces stands between two quotes, with none inside. -/
  | quoted {kind : LiteralKind} {word : String} {body : List Char}
      (hword : LiteralKind.ofWord? word = some kind) (hbody : quote ∉ body) :
      Rule (word.toList ++ quote :: (body ++ [quote])) (some (.quoted kind (String.ofList body)))
  | name {name : List Char} (h : Text.IsName name) : Rule name (some (.ident (String.ofList name)))
  /-- A text stands between two quotes, with quotes inside doubled. -/
  | text (value : List Char) :
      Rule (quote :: (doubled value ++ [quote])) (some (.text (String.ofList value)))
  | int {digits : List Char} {n? : Option Int64} (h : Text.IsNumeral digits)
      (hn : Text.IsWhole digits n?) : Rule digits (n?.map .int)
  | long {digits : List Char} {mark : Char} {n? : Option Int64} (h : Text.IsNumeral digits)
      (hmark : mark = 'l' ∨ mark = 'L') (hn : Text.IsWhole digits n?) :
      Rule (digits ++ [mark]) (n?.map .long)
  | decimal {digits : List Char} {mark : Char} (h : Text.IsDecimal digits)
      (hmark : mark = 'm' ∨ mark = 'M') :
      Rule (digits ++ [mark]) (some (.decimal (String.ofList digits)))
  /-- A double has a fraction or an exponent, and a mark behind it or none. -/
  | double {whole fraction exponent mark : List Char} {exponent? : Option Lexeme.Exponent}
      (hwhole : Text.IsNumeral whole) (hfraction : ∀ d ∈ fraction, d.isDigit = true)
      (hexponent : Text.IsExponent? exponent? exponent)
      (hparts : fraction ≠ [] ∨ exponent? ≠ none)
      (hmark : mark = [] ∨ ∃ d, mark = [d] ∧ (d = 'd' ∨ d = 'D')) :
      Rule (whole ++ (Text.fractionText fraction ++ (exponent ++ mark)))
        (some (.double (Lexeme.doubleOf whole fraction exponent?)))

namespace Lexeme

/-- The kind of a piece that has a rule. -/
def Kind.ofOutcome : Option Token → Kind
  | some t => .token t
  | none => .unrecognized

/-- A quoted literal that is not closed up to the end of the text. -/
inductive Unterminated : List Char → Prop
  /-- All quotes after the first one are doubled. -/
  | text (value : List Char) : Unterminated (quote :: doubled value)
  /-- There is no quote after the one behind the word. -/
  | quoted {kind : LiteralKind} {word : String} {body : List Char}
      (hword : LiteralKind.ofWord? word = some kind) (hbody : quote ∉ body) :
      Unterminated (word.toList ++ quote :: body)

variable {c : Char} {cs rest : List Char}

/-- Only names are read as names. -/
theorem isName_of_rule {front : List Char} {name : String}
    (h : Token.Rule front (some (.ident name))) : Text.IsName front := by
  generalize houtcome : some (Token.ident name) = outcome at h
  cases h with
  | name h => exact h
  | int _ hn => cases hn <;> cases houtcome
  | long _ _ hn => cases hn <;> cases houtcome
  | keyword | symbol | quoted | text | decimal | double => cases houtcome

/-- What is read at a character, and how much of the text behind it, is by a rule. -/
def ByRule (c : Char) (cs : List Char) (read : Kind × Nat) : Prop :=
  ∃ front rest outcome, cs = front ++ rest ∧ read = (.ofOutcome outcome, front.length) ∧
    Token.Rule (c :: front) outcome

/-- A text with a rule fits into what is read: it is not longer, and if it is as long, it is what is
read, unless it is a name that is a keyword. -/
structure Fits (front : List Char) (outcome : Option Token) (read : Kind × Nat) : Prop where
  /-- The text is not longer. -/
  length_le : front.length ≤ read.2 + 1
  /-- If it is as long, it is of the kind that is read. -/
  kind_eq : front.length = read.2 + 1 →
    (∀ name, outcome = some (.ident name) → Keyword.ofSpelling? name = none) →
    read.1 = .ofOutcome outcome

/-- What is read exactly fits. -/
theorem Fits.of_eq {front : List Char} {outcome : Option Token} {read : Kind × Nat} {n : Nat}
    (h : read = (.ofOutcome outcome, n)) (hlength : front.length = n + 1) :
    Fits front outcome read := by
  subst h
  exact ⟨Nat.le_of_eq hlength, fun _ _ => rfl⟩

/-! ## Texts -/

/-- A text is not closed when all of its quotes are doubled. -/
theorem textBody_eq_none_iff : textBody cs = none ↔ ∃ value, cs = doubled value := by
  constructor
  · intro h
    induction cs using textBody.induct with
    | case1 => exact ⟨[], rfl⟩
    | case2 cs ih =>
      rw [textBody, Option.map_eq_none_iff] at h
      obtain ⟨value, rfl⟩ := ih h
      exact ⟨quote :: value, rfl⟩
    | case3 tail hno =>
      rw [textBody] at h
      · cases h
      · exact hno
    | case4 c cs hno hne ih =>
      rw [textBody, Option.map_eq_none_iff] at h
      · obtain ⟨value, rfl⟩ := ih h
        exact ⟨c :: value, (doubled_cons hne value).symm⟩
      · exact hno
      · exact hne
  · rintro ⟨value, rfl⟩
    induction value with
    | nil => rfl
    | cons c value ih =>
      by_cases hc : c = quote
      · subst hc
        rw [doubled_quote]
        show (textBody (doubled value)).map _ = none
        rw [ih]
        rfl
      · rw [doubled_cons hc, textBody]
        · rw [ih]
          rfl
        · intro _ heq
          exact absurd heq hc
        · exact hc

/-- A text that is closed is read at least up to a quote before which all quotes are doubled, and if
no further, as what stands before that quote. -/
theorem textBody_of_closed (value : List Char) {body : List Char} {n : Nat}
    (h : textBody (doubled value ++ quote :: rest) = some (body, n)) :
    (doubled value).length + 1 ≤ n ∧ (n = (doubled value).length + 1 → body = value) := by
  induction value generalizing body n with
  | nil =>
    cases rest with
    | nil =>
      cases h
      exact ⟨Nat.le_refl _, fun _ => rfl⟩
    | cons d rest =>
      by_cases hd : d = quote
      · subst hd
        obtain ⟨⟨body', n'⟩, -, heq⟩ := Option.map_eq_some_iff.mp (show
          (textBody rest).map _ = some (body, n) from h)
        cases heq
        refine ⟨by simp [doubled], fun hn => ?_⟩
        simp [doubled] at hn
      · have hsingle : ∀ cs, d :: rest ≠ '\x27' :: cs := fun cs heq => hd (List.cons.inj heq).1
        have hclosed : textBody ('\x27' :: d :: rest) = some ([], 1) := by
          rw [textBody]
          exact hsingle
        cases hclosed.symm.trans h
        exact ⟨Nat.le_refl _, fun _ => rfl⟩
  | cons c value ih =>
    by_cases hc : c = quote
    · subst hc
      obtain ⟨⟨body', n'⟩, hbody, heq⟩ := Option.map_eq_some_iff.mp (show
        (textBody (doubled value ++ quote :: rest)).map _ = some (body, n) from h)
      cases heq
      obtain ⟨hle, heq⟩ := ih hbody
      rw [doubled_quote]
      simp only [List.length_cons]
      refine ⟨by omega, fun hn => ?_⟩
      rw [heq (by omega)]
    · rw [doubled_cons hc, List.cons_append, textBody] at h
      · obtain ⟨⟨body', n'⟩, hbody, heq⟩ := Option.map_eq_some_iff.mp h
        cases heq
        obtain ⟨hle, heq⟩ := ih hbody
        rw [doubled_cons hc]
        simp only [List.length_cons]
        refine ⟨by omega, fun hn => ?_⟩
        rw [heq (by omega)]
      · intro _ heq
        exact absurd heq hc
      · exact hc

/-- A text literal is read up to its closing quote. -/
theorem textBody_eq_some {body : List Char} {n : Nat} (h : textBody cs = some (body, n)) :
    ∃ rest, cs = doubled body ++ quote :: rest ∧ n = (doubled body).length + 1 := by
  induction cs using textBody.induct generalizing body n with
  | case1 => cases h
  | case2 cs ih =>
    rw [textBody] at h
    obtain ⟨⟨body', n'⟩, hbody, heq⟩ := Option.map_eq_some_iff.mp h
    cases heq
    obtain ⟨rest, rfl, rfl⟩ := ih hbody
    rw [doubled_quote]
    exact ⟨rest, rfl, rfl⟩
  | case3 tail hno =>
    rw [textBody] at h
    · cases h
      exact ⟨tail, rfl, rfl⟩
    · exact hno
  | case4 c cs hno hne ih =>
    rw [textBody] at h
    · obtain ⟨⟨body', n'⟩, hbody, heq⟩ := Option.map_eq_some_iff.mp h
      cases heq
      obtain ⟨rest, rfl, rfl⟩ := ih hbody
      rw [doubled_cons hne]
      exact ⟨rest, rfl, rfl⟩
    · exact hno
    · exact hne

/-- A text that another one begins with fits into the one that is read there. -/
theorem text_fits (value rest : List Char) {body : List Char} {n : Nat}
    (h : textBody (doubled value ++ quote :: rest) = some (body, n)) :
    Fits (quote :: (doubled value ++ [quote])) (some (.text (String.ofList value)))
      (.token (.text (String.ofList body)), n) := by
  obtain ⟨hle, heq⟩ := textBody_of_closed value h
  have hlength : (quote :: (doubled value ++ [quote])).length = (doubled value).length + 1 + 1 := by
    simp
  constructor
  · omega
  · intro hlength' _
    dsimp only at hlength'
    rw [heq (by omega)]
    rfl

/-! ## Runs of characters -/

/-- A text begins with a run of characters of a kind, which ends where one of another kind
follows. -/
theorem exists_run (p : Char → Bool) (cs : List Char) :
    ∃ run rest, cs = run ++ rest ∧ cs.takeWhile p = run ∧ (∀ c ∈ run, p c = true) ∧
      ∀ c ∈ rest.head?, p c = false := by
  refine ⟨cs.takeWhile p, cs.dropWhile p, List.takeWhile_append_dropWhile.symm, rfl,
    fun c hc => List.mem_takeWhile_imp hc, ?_⟩
  intro c hc
  cases hrest : cs.dropWhile p with
  | nil =>
    rw [hrest] at hc
    cases hc
  | cons d rest =>
    rw [hrest] at hc
    obtain rfl : d = c := Option.some.inj hc
    have hfirst := List.head_dropWhile_not p (l := cs) (by simp [hrest])
    simpa [hrest] using hfirst

/-! ## Words -/

/-- What is read at a letter or an underscore, by the name that the text begins with and what stands
behind it. -/
inductive TakesWord (c : Char) (more after : List Char) : Kind × Nat → Prop
  /-- The name announces a literal that is not closed. -/
  | unterminated {kind : LiteralKind} {body : List Char}
      (hkind : LiteralKind.ofWord? (String.ofList (c :: more)) = some kind) (hbody : quote ∉ body)
      (hafter : after = quote :: body) :
      TakesWord c more after (.unrecognized, (more ++ after).length)
  /-- The name announces a literal. -/
  | quoted {kind : LiteralKind} {body rest : List Char}
      (hkind : LiteralKind.ofWord? (String.ofList (c :: more)) = some kind) (hbody : quote ∉ body)
      (hafter : after = quote :: (body ++ quote :: rest)) :
      TakesWord c more after
        (.token (.quoted kind (String.ofList body)), more.length + 1 + (body.length + 1))
  /-- The name stands alone. -/
  | alone : TakesWord c more after (.token (wordToken (String.ofList (c :: more))), more.length)

/-- A word that announces a literal is no token with one that is not closed. -/
theorem word_unterminated {more body : List Char} {kind : LiteralKind}
    (hmore : ∀ d ∈ more, isNamePart d = true)
    (hkind : LiteralKind.ofWord? (String.ofList (c :: more)) = some kind) (hbody : quote ∉ body) :
    word c (more ++ quote :: body) = (.unrecognized, (more ++ quote :: body).length) := by
  have hrun : (more ++ quote :: body).takeWhile isNamePart = more :=
    takeWhile_before hmore (by decide) body
  have hdrop : (more ++ quote :: body).drop more.length = '\x27' :: body := List.drop_left
  have hall : body.takeWhile (· != quote) = body :=
    List.takeWhile_eq_self_iff.mpr fun d hd => bne_iff_ne.mpr fun heq => hbody (heq ▸ hd)
  have hnone : literalBody body = none := by simp [literalBody, hall]
  unfold word
  simp only [hrun, hdrop, hkind, hnone]

/-- A word is read by all of the name that the text begins with. -/
theorem takesWord {more after : List Char} (hmore : ∀ d ∈ more, isNamePart d = true)
    (hafter : ∀ d ∈ after.head?, isNamePart d = false) :
    TakesWord c more after (word c (more ++ after)) := by
  have hrun := takeWhile_append hmore hafter
  by_cases hquote : ∃ kind body, LiteralKind.ofWord? (String.ofList (c :: more)) = some kind ∧
      after = quote :: body
  · obtain ⟨kind, body, hkind, rfl⟩ := hquote
    obtain ⟨body, rest, rfl, -, hbody, hrest⟩ := exists_run (· != quote) body
    have hnot : quote ∉ body := fun hmem => absurd (hbody quote hmem) (by simp)
    cases rest with
    | nil =>
      rw [List.append_nil, word_unterminated hmore hkind hnot]
      exact .unterminated hkind hnot rfl
    | cons d rest =>
      obtain rfl : d = quote := by simpa using hrest d rfl
      rw [word_quoted hmore hkind hnot rest]
      exact .quoted hkind hnot rfl
  · have hword : word c (more ++ after) =
        (.token (wordToken (String.ofList (c :: more))), more.length) := by
      unfold word
      simp only [hrun, List.drop_left]
      split
      next kind body hkind => exact absurd ⟨kind, body, hkind, rfl⟩ hquote
      next => rfl
    rw [hword]
    exact .alone

/-- A word is read by a rule, unless it announces a literal that is not closed. -/
theorem TakesWord.byRule {more after : List Char} {read : Kind × Nat}
    (hc : isNameStart c = true) (hmore : ∀ d ∈ more, isNamePart d = true)
    (h : TakesWord c more after read) (hopen : ¬Unterminated (c :: (more ++ after))) :
    ByRule c (more ++ after) read := by
  have hname : (String.ofList (c :: more)).toList = c :: more := String.toList_ofList
  cases h with
  | unterminated hkind hbody hafter =>
    have hunterminated := Unterminated.quoted hkind hbody
    rw [hname, ← hafter] at hunterminated
    exact absurd hunterminated hopen
  | @quoted kind body rest hkind hbody hafter =>
    have hrule := Token.Rule.quoted hkind hbody
    rw [hname] at hrule
    refine ⟨more ++ quote :: (body ++ [quote]), rest, some _, by simp [hafter], ?_, hrule⟩
    simp [Kind.ofOutcome]
    omega
  | alone =>
    refine ⟨more, after, some _, rfl, rfl, ?_⟩
    unfold wordToken
    split
    next k hk =>
      -- The keyword is found under its spelling.
      have hspelling : k.spelling = String.ofList (c :: more) :=
        eq_of_beq (List.find?_some (p := fun k : Keyword => k.spelling == _) hk)
      have hrule := Token.Rule.keyword k
      rwa [hspelling, hname] at hrule
    next => exact .name ⟨hc, List.all_eq_true.mpr hmore⟩

/-- A name that a text begins with fits into the word there, as the token of the name. -/
theorem word_fits {more : List Char} (hmore : ∀ d ∈ more, isNamePart d = true)
    {outcome : Option Token} (houtcome :
      (∀ name, outcome = some (.ident name) → Keyword.ofSpelling? name = none) →
      outcome = some (wordToken (String.ofList (c :: more)))) (rest : List Char) :
    Fits (c :: more) outcome (word c (more ++ rest)) := by
  obtain ⟨run, after, rfl, -, hrun, hafter⟩ := exists_run isNamePart rest
  have htakes : TakesWord c (more ++ run) after (word c (more ++ run ++ after)) :=
    takesWord (List.forall_mem_append.mpr ⟨hmore, hrun⟩) hafter
  rw [List.append_assoc] at htakes
  generalize word c (more ++ (run ++ after)) = read at htakes
  cases htakes with
  | unterminated _ _ hafter =>
    -- What is read goes at least up to the quote.
    have hlt : (c :: more).length < (more ++ run ++ after).length + 1 := by
      simp [hafter]
      omega
    exact ⟨Nat.le_of_lt hlt, fun hlength => absurd hlength (Nat.ne_of_lt hlt)⟩
  | @quoted _ body =>
    have hlt : (c :: more).length < (more ++ run).length + 1 + (body.length + 1) + 1 := by
      simp
      omega
    exact ⟨Nat.le_of_lt hlt, fun hlength => absurd hlength (Nat.ne_of_lt hlt)⟩
  | alone =>
    constructor
    · simp
    · intro hlength hident
      have hnil : run = [] := by simpa using hlength
      rw [hnil, List.append_nil, houtcome hident]
      rfl

/-! ## Literals that are not closed -/

/-- A literal that is not closed is read up to the end of the text. -/
theorem kindAt_unterminated (h : Unterminated (c :: cs)) :
    kindAt c cs = (.unrecognized, cs.length) := by
  generalize htext : c :: cs = text at h
  cases h with
  | text value =>
    cases htext
    have hnone : textBody (doubled value) = none := textBody_eq_none_iff.mpr ⟨value, rfl⟩
    have hspace : isSpace quote = false := rfl
    simp [kindAt, hspace, hnone]
  | @quoted kind word body hword hbody =>
    obtain ⟨first, more, hname, hstart, hparts⟩ := (isName_of_ofWord? hword).eq_cons
    rw [hname, List.cons_append] at htext
    obtain ⟨rfl, rfl⟩ := List.cons.inj htext
    have hkind : LiteralKind.ofWord? (String.ofList (c :: more)) = some kind := by
      rwa [← hname, String.ofList_toList]
    rw [kindAt_nameStart hstart, word_unterminated hparts hkind hbody]

/-- The word goes with its literal. -/
example : kindAt 'g' "uid'0".toList = (.unrecognized, 5) := rfl

end Lexeme

end EntityQuery
