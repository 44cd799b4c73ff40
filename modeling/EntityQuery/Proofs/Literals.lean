import EntityQuery.Proofs.Spans
import EntityQuery.Proofs.Parsing
import EntityQuery.Proofs.Spelling

/-!
# Literals stand where they are written

Every literal of a parsed expression is a token at the place that its span says
(`Syntax.LiteralsIn`): a parser takes literals from the lexemes and makes none up, so what is put
together from parts has the literals of its parts (`Parser.Draws`, one lemma for each parser up to
`Parser.operand_draws`). And the characters of a whole number are its digits, behind which a long
one has its mark (`Lexeme.spells_whole`). So a whole number in a parsed expression is the number
that is written there (`Syntax.LiteralsIn.written`).
-/

open Relation (ReflTransGen)

namespace EntityQuery

/-! ## Literals of parsed expressions -/

/-- The literals of an expression are tokens among some lexemes, at their places. -/
def Syntax.LiteralsIn (ls : List Lexeme) (e : Syntax) : Prop :=
  ∀ value span, literal value span ∈ e.nodes →
    ∃ l ∈ ls, l.token? = some value.token ∧ l.span = span

namespace Syntax.LiteralsIn

variable {ls ls' : List Lexeme} {left right e : Syntax} {span : Span}

/-- Literals among the last lexemes are among all of them. -/
theorem mono (h : e.LiteralsIn ls) (hsuffix : ls <:+ ls') : e.LiteralsIn ls' := by
  intro value span hmem
  obtain ⟨l, hl, htoken⟩ := h value span hmem
  exact ⟨l, hsuffix.subset hl, htoken⟩

/-- Two operands and their operator have the literals of the operands. -/
theorem join (hleft : left.LiteralsIn ls) (hright : right.LiteralsIn ls) (op : BinaryOp) :
    (left.join op right).LiteralsIn ls := by
  intro value span hmem
  rcases List.mem_cons.mp hmem with heq | hmem
  · cases heq
  · rcases List.mem_append.mp hmem with hmem | hmem
    · exact hleft value span hmem
    · exact hright value span hmem

/-- An operand with a prefix operator has its literals. -/
theorem unary (h : e.LiteralsIn ls) (op : UnaryOp) : (unary op e span).LiteralsIn ls := by
  intro value place hmem
  rcases List.mem_cons.mp hmem with heq | hmem
  · cases heq
  · exact h value place hmem

/-- A path has no literals. -/
theorem path (segments : List String) : (path segments span).LiteralsIn ls := by
  intro value place hmem
  cases List.mem_singleton.mp hmem

/-- A call has the literals of its arguments. -/
theorem call {args : List Syntax} (h : ∀ arg ∈ args, arg.LiteralsIn ls) (name : Located String) :
    (call name args span).LiteralsIn ls := by
  intro value place hmem
  rcases List.mem_cons.mp hmem with heq | hmem
  · cases heq
  · obtain ⟨arg, harg, hmem⟩ := mem_nodesOfAll.mp hmem
    exact h arg harg value place hmem

/-- A literal is the only one that it has. -/
theorem literal {l : Lexeme} {value : Literal} (hl : l ∈ ls) (h : l.token? = some value.token) :
    (literal value l.span).LiteralsIn ls := by
  intro value' place hmem
  cases List.mem_singleton.mp hmem
  exact ⟨l, hl, h, rfl⟩

end Syntax.LiteralsIn

namespace Parser

section

variable {α : Type} {expr : α → Syntax} {ls rest : List Lexeme}

/-- What a parser returns has its literals from the lexemes that it is given, and what it leaves is
the end of these. -/
def Draws (expr : α → Syntax) (p : Parser α) : Prop :=
  ∀ ls a rest, Yields (p ls) a rest → (expr a).LiteralsIn ls ∧ rest <:+ ls

/-- Values with commas between them have their literals from the lexemes when each of them has. -/
theorem Draws.separated {p : Parser α} (hp : Draws expr p) {as : List α}
    (h : Separated p ls as rest) : (∀ a ∈ as, (expr a).LiteralsIn ls) ∧ rest <:+ ls := by
  induction h with
  | last ha _ =>
    obtain ⟨hliterals, hsuffix⟩ := hp _ _ _ ha
    exact ⟨List.forall_mem_singleton.mpr hliterals, hsuffix⟩
  | more ha _ _ ih =>
    obtain ⟨hliterals, hsuffix⟩ := hp _ _ _ ha
    obtain ⟨hmore, hrest⟩ := ih
    have hafter := (List.suffix_cons _ _).trans hsuffix
    refine ⟨List.forall_mem_cons.mpr ⟨hliterals, fun a hmem => ?_⟩, hrest.trans hafter⟩
    exact (hmore a hmem).mono hafter

/-- A chain has its literals from the lexemes when its operands have. -/
theorem Draws.chain {operand : Parser Syntax} (hoperand : Draws id operand)
    (op? : Token → Option BinaryOp) : Draws id (Parser.chain op? operand) := by
  intro ls e rest h
  obtain ⟨first, mid, hfirst, hsteps, -⟩ := chain_yields.mp h
  obtain ⟨hliterals, hsuffix⟩ := hoperand _ _ _ hfirst
  -- Each step puts one more operand to what was parsed so far.
  have hrun : ∀ state : Syntax × List Lexeme,
      ReflTransGen (ChainStep operand op?) (first, mid) state →
        state.1.LiteralsIn ls ∧ state.2 <:+ ls := by
    intro state hsteps
    induction hsteps with
    | refl => exact ⟨hliterals, hsuffix⟩
    | tail _ hstep ih =>
      obtain ⟨-, -, hright⟩ := hstep
      obtain ⟨hleft, hsuffix⟩ := ih
      obtain ⟨hright, hrest⟩ := hoperand _ _ _ hright
      have hafter := (List.suffix_cons _ _).trans hsuffix
      exact ⟨hleft.join (hright.mono hafter) _, hrest.trans hafter⟩
  exact hrun (e, rest) hsteps

/-- Expressions have their literals from the lexemes when their operands have. -/
theorem Draws.expressionOf {operand : Parser Syntax} (hoperand : Draws id operand) :
    Draws id (Parser.expressionOf operand) :=
  ((((hoperand.chain _).chain _).chain _).chain _).chain _

/-- What the segments of a path leave is the end of the lexemes. -/
theorem TakesSegments.suffix {names : List (Located String)} (h : TakesSegments ls names rest) :
    rest <:+ ls := by
  induction h with
  | none => exact List.suffix_refl _
  | more _ _ _ ih =>
    exact ih.trans ((List.suffix_cons _ _).trans (List.suffix_cons _ _))

/-- An operand has its literals from the lexemes when what is nested in it has. -/
theorem TakesOperand.draws {s : Setting} {deeper? : Option Deeper} {e : Syntax}
    (hdeeper : ∀ deeper, deeper? = some deeper →
      Draws id deeper.operand ∧ Draws id deeper.expression)
    (h : TakesOperand s deeper? ls e rest) : e.LiteralsIn ls ∧ rest <:+ ls := by
  cases h with
  | @unary _ l after _ op inner hsome _ h =>
    obtain ⟨hliterals, hsuffix⟩ := (hdeeper _ hsome).1 _ _ _ h
    have hafter : after <:+ l :: after := List.suffix_cons l after
    exact ⟨(hliterals.mono hafter).unary op, hsuffix.trans hafter⟩
  | @group _ l close after _ _ hsome _ h _ =>
    obtain ⟨hliterals, hsuffix⟩ := (hdeeper _ hsome).2 _ _ _ h
    have hafter : after <:+ l :: after := List.suffix_cons l after
    have hrest : rest <:+ after := (List.suffix_cons close rest).trans hsuffix
    exact ⟨hliterals.mono hafter, hrest.trans hafter⟩
  | @path l after _ _ _ _ _ h => exact ⟨.path _, h.suffix.trans (List.suffix_cons l after)⟩
  | @call _ l parenthesis close after _ _ _ hsome _ _ h _ =>
    have hafter : after <:+ l :: parenthesis :: after :=
      (List.suffix_cons parenthesis after).trans (List.suffix_cons l _)
    rcases callArguments_yields.mp h with ⟨-, rfl, rfl⟩ | ⟨-, hargs⟩
    · exact ⟨.call (List.forall_mem_nil _) _, (List.suffix_cons close rest).trans hafter⟩
    · obtain ⟨hliterals, hsuffix⟩ := (hdeeper _ hsome).2.separated hargs
      have hrest : rest <:+ after := (List.suffix_cons close rest).trans hsuffix
      exact ⟨.call (fun arg harg => (hliterals arg harg).mono hafter) _, hrest.trans hafter⟩
  | @literal l _ _ h => exact ⟨.literal List.mem_cons_self h, List.suffix_cons l rest⟩

/-- Operands have their literals from the lexemes at every number of levels. -/
theorem operand_draws (s : Setting) (levels : Nat) : Draws id (operand s levels) := by
  induction levels with
  | zero =>
    intro ls e rest h
    refine (operand_yields.mp h).draws ?_
    intro deeper hsome
    cases hsome
  | succ levels ih =>
    intro ls e rest h
    refine (operand_yields.mp h).draws ?_
    rintro deeper hsome
    cases hsome
    exact ⟨ih, ih.expressionOf⟩

/-- Items of a sort order have their literals from the lexemes when expressions have. -/
theorem Draws.orderItem {p : Parser Syntax} (hp : Draws id p) :
    Draws OrderItem.expr (Parser.orderItem p) := by
  intro ls item rest h
  cases orderItem_yields.mp h with
  | plain he _ => exact hp _ _ _ he
  | directed he _ =>
    obtain ⟨hliterals, hsuffix⟩ := hp _ _ _ he
    exact ⟨hliterals, (List.suffix_cons _ _).trans hsuffix⟩

end

/-- The literals of a parsed filter are tokens of its text. -/
theorem literalsIn_parseFilter {source : String} {limit : Nat} {e : Syntax}
    (h : Syntax.parseFilter source limit = .ok e) : e.LiteralsIn (Lexeme.all source) := by
  have hdraws := (operand_draws (settingOf source limit) limit).expressionOf
  exact (hdraws _ _ _ (finish_bind_eq_ok.mp h)).1

/-- The literals of a parsed sort order are tokens of its text. -/
theorem literalsIn_parseList {source : String} {limit : Nat} {items : List OrderItem}
    (h : OrderItem.parseList source limit = .ok items) :
    ∀ item ∈ items, item.expr.LiteralsIn (Lexeme.all source) := by
  have hdraws := (operand_draws (settingOf source limit) limit).expressionOf
  have hitems : Yields (orderItems (expression (settingOf source limit)) (Lexeme.all source))
      items [] := finish_bind_eq_ok.mp h
  exact (hdraws.orderItem.separated (orderItems_yields.mp hitems)).1

end Parser

/-! ## Whole numbers -/

/-- The whole number that a token is. -/
def Token.whole? : Token → Option Int64
  | int n | long n => some n
  | _ => none

/-- The whole number that a literal is. -/
def Literal.whole? (value : Literal) : Option Int64 := value.token.whole?

namespace Lexeme

variable {c : Char} {cs digits : List Char} {t : Token} {n : Int64} {k : Nat}

/-- A token of digits is made of the number that they form. -/
theorem whole?_eq_token {token : Int64 → Token} (h : whole? token digits = .token t) :
    ∃ n : Int64, t = token n ∧ numberOf digits = n.toInt := by
  unfold whole? at h
  dsimp only at h
  split at h
  next hle =>
    have hmost : Int64.maxValue.toInt.toNat < 2 ^ 63 := by decide
    have hlt : numberOf digits < 2 ^ 63 := Nat.lt_of_le_of_lt hle hmost
    exact ⟨_, (Kind.token.inj h).symm, (Int64.toInt_ofNat_of_lt hlt).symm⟩
  next => cases h

/-- A whole number that a text begins with: its token, which is of the number that all digits there
form, and the characters after the first digit, with the mark of a long number. -/
inductive TakesWhole (c : Char) (cs : List Char) : Token → Nat → Prop
  | int {n : Int64} (hn : numberOf (c :: cs.takeWhile Char.isDigit) = n.toInt) :
      TakesWhole c cs (.int n) (cs.takeWhile Char.isDigit).length
  | long {n : Int64} (hn : numberOf (c :: cs.takeWhile Char.isDigit) = n.toInt)
      (hmark : beginsWithLetter 'l' 'L' (cs.drop (cs.takeWhile Char.isDigit).length) = true) :
      TakesWhole c cs (.long n) ((cs.takeWhile Char.isDigit).length + 1)

/-- Where a number is read as a whole one, the text begins with it. -/
theorem takesWhole_number (h : number c cs = (.token t, k)) (ht : t.whole? = some n) :
    TakesWhole c cs t k := by
  by_cases hfraction : fractionDigits (cs.drop (cs.takeWhile Char.isDigit).length) = []
  · simp only [number, hfraction, reduceIte, ne_eq, not_true, Nat.add_zero, List.drop_zero] at h
    split at h
    next =>
      cases h
      cases ht
    next =>
      split at h
      next =>
        cases h
        cases ht
      next =>
        split at h
        next hmark =>
          obtain ⟨hwhole, rfl⟩ := Prod.mk.inj h
          obtain ⟨n, rfl, hn⟩ := whole?_eq_token hwhole
          exact .long hn hmark
        next =>
          obtain ⟨hwhole, rfl⟩ := Prod.mk.inj h
          obtain ⟨n, rfl, hn⟩ := whole?_eq_token hwhole
          exact .int hn
  · -- With a fraction it is a decimal or a double.
    simp only [number, hfraction, reduceIte, ne_eq, not_false_eq_true] at h
    split at h
    next =>
      cases h
      cases ht
    next =>
      split at h
      next =>
        cases h
        cases ht
      next =>
        cases h
        cases ht

/-- No word is a whole number. -/
theorem word_ne_whole (ht : t.whole? = some n) : (word c cs).1 ≠ .token t := by
  intro h
  unfold word wordToken at h
  grind [Token.whole?]

/-- Only what begins with a digit is a whole number. -/
theorem kindAt_eq_whole (h : kindAt c cs = (.token t, k)) (ht : t.whole? = some n) :
    c.isDigit = true ∧ TakesWhole c cs t k := by
  unfold kindAt at h
  split at h
  next => cases h
  next =>
    split at h
    next =>
      split at h
      next =>
        cases h
        cases ht
      next => cases h
    next =>
      split at h
      next hdigit => exact ⟨hdigit, takesWhole_number h ht⟩
      next =>
        split at h
        next => exact absurd (congrArg Prod.fst h) (word_ne_whole ht)
        next =>
          split at h
          next =>
            cases h
            cases ht
          next => cases h

/-- A letter that a text begins with. -/
theorem exists_head_of_beginsWithLetter {lower upper : Char}
    (h : beginsWithLetter lower upper cs = true) :
    ∃ mark, cs.head? = some mark ∧ (mark = lower ∨ mark = upper) := by
  rcases Bool.or_eq_true_iff.mp h with hlower | hupper
  · exact ⟨lower, eq_of_beq hlower, .inl rfl⟩
  · exact ⟨upper, eq_of_beq hupper, .inr rfl⟩

/-- The characters of a whole number spell it. -/
theorem TakesWhole.spells (h : TakesWhole c cs t k) (hc : c.isDigit = true) :
    t.Spells (String.ofList (c :: cs.take k)) := by
  have hnumeral : Text.IsNumeral (String.ofList (c :: cs.takeWhile Char.isDigit)).toList := by
    rw [String.toList_ofList]
    refine ⟨List.cons_ne_nil _ _, List.forall_mem_cons.mpr ⟨hc, ?_⟩⟩
    exact fun d hd => List.mem_takeWhile_imp hd
  have hmore : cs.take (cs.takeWhile Char.isDigit).length = cs.takeWhile Char.isDigit :=
    (List.prefix_iff_eq_take.mp (List.takeWhile_prefix _)).symm
  cases h with
  -- The mark of a long number is one character more, behind the digits.
  | int hn =>
    rw [hmore]
    exact .int hnumeral (by rwa [String.toList_ofList])
  | long hn hmark =>
    obtain ⟨mark, hhead, hmark⟩ := exists_head_of_beginsWithLetter hmark
    have hchars : String.ofList (c :: cs.take ((cs.takeWhile Char.isDigit).length + 1)) =
        (String.ofList (c :: cs.takeWhile Char.isDigit)).push mark := by
      rw [List.take_add_one, hmore, ← List.head?_drop, hhead]
      apply String.toList_injective
      simp
    rw [hchars]
    exact .long hnumeral (by rwa [String.toList_ofList]) hmark

/-- The characters of a whole number in a text spell it. -/
theorem spells_whole {source : String} {l : Lexeme} (hl : l ∈ all source)
    (htoken : l.token? = some t) (ht : t.whole? = some n) : t.Spells (String.ofList l.chars) := by
  obtain ⟨c, rest, k, hkind, hchars⟩ := (stands_of_mem hl).front _ htoken
  obtain ⟨hdigit, hwhole⟩ := kindAt_eq_whole hkind ht
  rw [hchars]
  exact hwhole.spells hdigit

end Lexeme

/-- A whole number that is written is not negative. -/
theorem Token.Spells.nonneg {t : Token} {text : String} {n : Int64} (h : t.Spells text)
    (ht : t.whole? = some n) : 0 ≤ n.toInt := by
  have hwritable := Token.spells_iff.mp ⟨text, h⟩
  cases t <;> cases ht <;> exact hwritable

/-- A whole number in an expression is spelled by the bytes at its place when the literals of the
expression are those of a text. -/
theorem Syntax.LiteralsIn.written {source : String} {e : Syntax} {value : Literal} {span : Span}
    {n : Int64} (h : e.LiteralsIn (Lexeme.all source)) (hmem : .literal value span ∈ e.nodes)
    (hn : value.whole? = some n) :
    ∃ text, value.token.Spells text ∧
      source.toUTF8.extract span.start span.stop = text.toUTF8 := by
  obtain ⟨l, hl, htoken, rfl⟩ := h value span hmem
  exact ⟨_, Lexeme.spells_whole hl htoken hn, Lexeme.extract_span hl⟩

end EntityQuery
