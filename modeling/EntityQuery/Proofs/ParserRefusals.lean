import EntityQuery.Proofs.ParserCompleteness

/-!
# Refusals of the parser

What is nested deeper than there are levels left is not parsed, and neither is any part of it that
the parser could be content with. What comes before the part that is too deep is found, and the
parser gets on to that part, by the one way there is (`Reaches.not_yields`,
`Refuses.not_separated`). `refused_of_derives` is the induction over derivations, with a lemma for
each of their rules that goes deeper or has two parts.
-/

open Relation (ReflTransGen)

namespace EntityQuery.Parser

/-! ## Lists -/

section

variable {α β : Type} {D : List Token → β → Nat → Prop} {p : Parser α} {tree : α → β}
  {stop : Token → Prop} {k : Nat}

/-- Whatever derives at a nesting beyond a bound is not parsed, not even in part. -/
def Refuses (p : Parser α) (D : List Token → β → Nat → Prop) (stop : Token → Prop) (k : Nat) :
    Prop :=
  ∀ ts b n, D ts b n → k < n → ∀ ls rest, Reads ls ts rest → StopsAt stop rest →
    ∀ a rest', ¬Yields (p ls) a rest'

/-- A list begins with a value, also where it goes on. -/
theorem Separated.exists_first {ls rest : List Lexeme} {as : List α} (h : Separated p ls as rest) :
    ∃ a mid, Yields (p ls) a mid := by
  cases h with
  | last ha _ => exact ⟨_, _, ha⟩
  | more ha _ _ => exact ⟨_, _, ha⟩

/-- Listed derivations are refused when the nesting of one of them is beyond the bound: those before
it are parsed, and it is refused. -/
theorem Refuses.not_separated (hrefuses : Refuses p D stop k) (hp : IsComplete p tree D stop k)
    (hcomma : stop (.symbol .comma)) {ts : List Token} {bs : List β} {n : Nat}
    (h : Listed D ts bs n) (hn : k < n) {ls rest : List Lexeme} (hreads : Reads ls ts rest)
    (hstop : StopsAt stop rest) (as : List α) (rest' : List Lexeme) :
    ¬Separated p ls as rest' := by
  induction h generalizing ls as with
  | last h =>
    intro hseparated
    obtain ⟨a, mid, ha⟩ := hseparated.exists_first
    exact hrefuses _ _ _ h hn ls rest hreads hstop a mid ha
  | @more ts us b bs m n h _ ih =>
    intro hseparated
    obtain ⟨l, after, hts, htoken, hus⟩ := hreads.of_between
    by_cases hm : m ≤ k
    · -- The first value is parsed up to the comma, so the run goes on there, to be refused later.
      have hn : k < n := by omega
      obtain ⟨a, ha, -⟩ := hp _ _ _ h hm ls _ hts (.cons htoken hcomma)
      cases hseparated with
      | last ha' hend =>
        obtain ⟨-, rfl⟩ := ha.unique ha'
        exact hend.of_cons htoken rfl
      | more ha' _ hmore =>
        obtain ⟨-, heq⟩ := ha.unique ha'
        cases heq
        exact ih hn hus _ hmore
    · obtain ⟨a, mid, ha⟩ := hseparated.exists_first
      exact hrefuses _ _ _ h (Nat.lt_of_not_le hm) ls _ hts (.cons htoken hcomma) a mid ha

end

/-! ## Chains -/

/-- A chain takes one step at most from where it is. -/
theorem ChainStep.unique {operand : Parser Syntax} {op? : Token → Option BinaryOp}
    {a b c : Syntax × List Lexeme} (h : ChainStep operand op? a b)
    (h' : ChainStep operand op? a c) : b = c := by
  obtain ⟨ht, hop, hright⟩ := h
  obtain ⟨ht', hop', hright'⟩ := h'
  obtain rfl := Option.some.inj (ht.symm.trans ht')
  obtain rfl := Option.some.inj (hop.symm.trans hop')
  obtain ⟨rfl, rfl⟩ := hright.unique hright'
  rfl

/-- A chain that has come to an operator without a right operand takes nothing. -/
theorem Reaches.not_yields {operand : Parser Syntax} {level : Level} {ls after : List Lexeme}
    {left : Syntax} {l : Lexeme} {t : Token} {op : BinaryOp}
    (h : Reaches operand (.operations level) ls left (l :: after)) (ht : l.token? = some t)
    (hop : level.op? t = some op)
    (hright : ∀ e rest, ¬Yields (level.operands.parser operand after) e rest) (e : Syntax)
    (rest : List Lexeme) : ¬Yields ((Category.operations level).parser operand ls) e rest := by
  rw [Category.parser_operations]
  intro hyields
  obtain ⟨first, mid, hfirst, hsteps⟩ := h
  obtain ⟨first', mid', hfirst', hsteps', hstop⟩ := chain_yields.mp hyields
  obtain ⟨rfl, rfl⟩ := hfirst.unique hfirst'
  -- No step goes on from the operator, and none from where the whole run stops.
  have hstuck : ∀ state, ¬ChainStep (level.operands.parser operand) level.op? (left, l :: after)
      state := by
    rintro _ ⟨-, -, hright'⟩
    exact hright _ _ hright'
  have hdone : ∀ state, ¬ChainStep (level.operands.parser operand) level.op? (e, rest)
      state := by
    rintro _ ⟨ht', hop', -⟩
    cases hstop with | cons ht'' hnone =>
    rw [Option.some.inj (ht'.symm.trans ht''), hnone] at hop'
    cases hop'
  have hsame : (e, rest) = (left, l :: after) := by
    have hunique : Relator.RightUnique (ChainStep (level.operands.parser operand) level.op?) :=
      fun _ _ _ => ChainStep.unique
    rcases ReflTransGen.total_of_right_unique hunique hsteps hsteps' with hgoes | hgoes
    · rcases hgoes.cases_head with heq | ⟨state, hstep, -⟩
      · exact heq.symm
      · exact absurd hstep (hstuck state)
    · rcases hgoes.cases_head with heq | ⟨state, hstep, -⟩
      · exact heq
      · exact absurd hstep (hdone state)
  cases hsame
  cases hstop with | cons ht' hnone =>
  rw [Option.some.inj (ht'.symm.trans ht), hop] at hnone
  cases hnone

/-! ## Operands -/

section

variable {s : Setting} {deeper? : Option Deeper} {l : Lexeme} {after rest : List Lexeme}
  {e : Syntax}

/-- What begins with a prefix operator is taken from the next level down. -/
theorem TakesOperand.of_unary {op : UnaryOp} (h : TakesOperand s deeper? (l :: after) e rest)
    (hop : l.token? = some op.token) :
    ∃ deeper inner, deeper? = some deeper ∧ Yields (deeper.operand after) inner rest := by
  cases h with
  | unary hsome _ h => exact ⟨_, _, hsome, h⟩
  | group _ hopen _ _ =>
    rw [hop] at hopen
    cases op <;> cases hopen
  | path hname _ _ =>
    rw [hop] at hname
    cases op <;> cases hname
  | call _ hname _ _ _ =>
    rw [hop] at hname
    cases op <;> cases hname
  | @literal _ _ value h =>
    rw [hop] at h
    cases op <;> cases value <;> cases h

/-- What begins with an opening parenthesis is taken from the next level down. -/
theorem TakesOperand.of_open (h : TakesOperand s deeper? (l :: after) e rest)
    (hopen : l.token? = some (.symbol .open)) :
    ∃ deeper inner close, deeper? = some deeper ∧
      Yields (deeper.expression after) inner (close :: rest) := by
  cases h with
  | @unary _ _ _ _ op _ _ hop _ =>
    rw [hopen] at hop
    cases op <;> cases hop
  | group hsome _ h _ => exact ⟨_, _, _, hsome, h⟩
  | path hname _ _ =>
    rw [hopen] at hname
    cases hname
  | call _ hname _ _ _ =>
    rw [hopen] at hname
    cases hname
  | @literal _ _ value h =>
    rw [hopen] at h
    cases value <;> cases h

/-- The arguments of a call are taken from the next level down. -/
theorem TakesOperand.of_call {parenthesis : Lexeme} {name : String}
    (h : TakesOperand s deeper? (l :: parenthesis :: after) e rest)
    (hname : l.token? = some (.ident name))
    (hopen : parenthesis.token? = some (.symbol .open)) :
    ∃ deeper args close, deeper? = some deeper ∧
      Yields (callArguments deeper.expression after) args (close :: rest) := by
  cases h with
  | @unary _ _ _ _ op _ _ hop _ =>
    rw [hname] at hop
    cases op <;> cases hop
  | group _ hopen' _ _ =>
    rw [hname] at hopen'
    cases hopen'
  | path _ hnext _ =>
    cases hnext with | cons ht hne =>
    exact absurd (Option.some.inj (ht.symm.trans hopen)) hne
  | call hsome _ _ h _ => exact ⟨_, _, _, hsome, h⟩
  | @literal _ _ value h =>
    rw [hname] at h
    cases value <;> cases h

end

/-! ## Derivations -/

/-- The parser of a category takes nothing where tokens derive at a nesting that is beyond its
levels. -/
def Refused (s : Setting) (c : Category) (ts : List Token) (n : Nat) : Prop :=
  ∀ levels, levels < n → ∀ ls rest, Reads ls ts rest → StopsAt (Ends (c.rank + 1)) rest →
    ∀ e rest', ¬Yields (c.parser (operand s levels) ls) e rest'

/-- A derivation that is refused is refused where the next token ends it. -/
theorem Refused.not_yields {s : Setting} {c : Category} {ts : List Token} {n : Nat}
    (h : Refused s c ts n) {levels : Nat} (hn : levels < n) {ls rest : List Lexeme}
    (hreads : Reads ls ts rest) (hstop : StopsAt (Ends c.rank) rest) (e : Syntax)
    (rest' : List Lexeme) : ¬Yields (c.parser (operand s levels) ls) e rest' :=
  h levels hn ls rest hreads (hstop.mono fun _ hends => hends.mono (Nat.le_succ _)) e rest'

section

variable {s : Setting} {ts us : List Token} {left : Tree} {m n : Nat}

/-- Without an operand there is no operation. -/
theorem Refused.operand {level : Level} (h : Refused s level.operands ts n) :
    Refused s (.operations level) ts n := by
  intro levels hn ls rest hreads hstop e rest' hyields
  rw [Category.parser_operations] at hyields
  obtain ⟨first, mid, hfirst, -⟩ := chain_yields.mp hyields
  rw [Category.rank, ← Level.rank_operands] at hstop
  exact h.not_yields hn hreads hstop first mid hfirst

/-- When the operations on the left are found, the chain gets on to the operator and stops at the
operand on the right, which is refused. -/
theorem Refused.operation {op : BinaryOp} (hfound : Found s (.operations op.level) ts left m)
    (hleft : Refused s (.operations op.level) ts m) (hright : Refused s op.level.operands us n) :
    Refused s (.operations op.level) (ts ++ op.token :: us) (max m n) := by
  intro levels hn ls rest hreads hstop
  obtain ⟨l, after, hts, htoken, hus⟩ := hreads.of_between
  have hends : StopsAt (Ends (op.level.rank + 1)) (l :: after) := .cons htoken (ends_token op)
  by_cases hm : m ≤ levels
  · -- The operations on the left are within the levels, so the operand on the right is not.
    have hn : levels < n := by omega
    obtain ⟨left, hreaches, -⟩ := hfound levels hm ls _ hts hends
    rw [Category.rank, ← Level.rank_operands] at hstop
    exact hreaches.not_yields htoken (Level.op?_eq_some.mpr ⟨rfl, rfl⟩)
      (hright.not_yields hn hus hstop)
  · exact hleft levels (Nat.lt_of_not_le hm) ls _ hts hends

/-- A prefix operator is refused with its operand. -/
theorem Refused.unary {op : UnaryOp} (h : Refused s .prefixed ts n) :
    Refused s .prefixed (op.token :: ts) (n + 1) := by
  intro levels hn ls rest hreads hstop e rest' hyields
  cases hreads with | cons hop hreads =>
  obtain ⟨deeper, inner, hsome, hinner⟩ := (operand_yields.mp hyields).of_unary hop
  cases levels with
  | zero => cases hsome
  | succ levels =>
    cases hsome
    exact h levels (Nat.lt_of_succ_lt_succ hn) _ rest hreads hstop inner rest' hinner

/-- What is not nested is never refused. -/
theorem refused_zero (c : Category) (ts : List Token) : Refused s c ts 0 :=
  fun _ hn => absurd hn (Nat.not_lt_zero _)

/-- A call is refused where no level is left. -/
theorem refused_emptyCall (name : String) :
    Refused s .primary [.ident name, .symbol .open, .symbol .close] 1 := by
  intro levels hn ls rest hreads _ e rest' hyields
  cases hreads with | cons hname hreads =>
  cases hreads with | cons hopen hreads =>
  obtain ⟨deeper, args, close, hsome, -⟩ := (operand_yields.mp hyields).of_call hname hopen
  cases Nat.lt_one_iff.mp hn
  cases hsome

/-- A call is refused with one of its arguments. -/
theorem Refused.call {name : String} {args : List Tree}
    (hderives : Listed (Derives .expression) ts args n)
    (h : Listed (fun ts tree n => Found s .expression ts tree n ∧ Refused s .expression ts n) ts
      args n) :
    Refused s .primary (.ident name :: .symbol .open :: (ts ++ [.symbol .close])) (n + 1) := by
  intro levels hn ls rest hreads _ e rest' hyields
  cases hreads with | cons hname hreads =>
  cases hreads with | cons hopen hreads =>
  obtain ⟨close, hts, hclose⟩ := hreads.of_concat
  obtain ⟨deeper, es, _, hsome, hargs⟩ := (operand_yields.mp hyields).of_call hname hopen
  cases levels with
  | zero => cases hsome
  | succ levels =>
    cases hsome
    rcases callArguments_yields.mp hargs with ⟨⟨_, _, rfl, ht⟩, -, -⟩ | ⟨-, hseparated⟩
    · -- There are arguments, so the call is not closed at once.
      exact (stopsAt_of_listed hderives hts).of_cons ht rfl
    · have hrefuses : Refuses (expressionOf (Parser.operand s levels))
          (fun ts tree n => Found s .expression ts tree n ∧ Refused s .expression ts n)
          (Ends Category.expression.rank) levels :=
        fun _ _ _ h hn _ _ => h.2.not_yields hn
      have hcomplete : IsComplete (expressionOf (Parser.operand s levels)) Syntax.tree
          (fun ts tree n => Found s .expression ts tree n ∧ Refused s .expression ts n)
          (Ends Category.expression.rank) levels :=
        fun _ _ _ h hn _ _ => h.1.yields hn
      exact hrefuses.not_separated hcomplete (ends_expression (.inr (.inl rfl))) h
        (Nat.lt_of_succ_lt_succ hn) hts (.cons hclose (ends_expression (.inl rfl))) es _ hseparated

/-- Parentheses are refused with what is in them. -/
theorem Refused.group (h : Refused s .expression ts n) :
    Refused s .primary (.symbol .open :: (ts ++ [.symbol .close])) (n + 1) := by
  intro levels hn ls rest hreads _ e rest' hyields
  cases hreads with | cons hopen hreads =>
  obtain ⟨close, hts, hclose⟩ := hreads.of_concat
  obtain ⟨deeper, inner, _, hsome, hinner⟩ := (operand_yields.mp hyields).of_open hopen
  cases levels with
  | zero => cases hsome
  | succ levels =>
    cases hsome
    exact h.not_yields (Nat.lt_of_succ_lt_succ hn) hts
      (.cons hclose (ends_expression (.inl rfl))) inner _ hinner

end

/-- Every derivation is refused where its nesting is beyond the levels that are left. -/
theorem refused_of_derives (s : Setting) {c : Category} {ts : List Token} {tree : Tree} {n : Nat}
    (h : Derives c ts tree n) : Refused s c ts n := by
  induction h using @Derives.rec _
    (fun ts args n _ =>
      Listed (fun ts tree n => Found s .expression ts tree n ∧ Refused s .expression ts n)
        ts args n) with
  | operand _ ih => exact ih.operand
  | operation hleft _ ihl ihr => exact .operation (found_of_derives s hleft) ihl ihr
  | unary _ ih => exact ih.unary
  | primary _ ih => exact ih
  | literal value => exact refused_zero _ _
  | path first more => exact refused_zero _ _
  | emptyCall name => exact refused_emptyCall name
  | call hargs ih => exact .call hargs ih
  | group _ ih => exact ih.group
  | last h ih => exact .last ⟨found_of_derives s h, ih⟩
  | more h _ ih ihmore => exact .more ⟨found_of_derives s h, ih⟩ ihmore

/-! ## Expressions and sort orders -/

/-- The parser of expressions refuses what is nested too deep. -/
theorem expression_refuses (s : Setting) (levels : Nat) :
    Refuses (expressionOf (operand s levels)) (Derives .expression)
      (Ends Category.expression.rank) levels :=
  fun _ _ _ h hn _ _ => (refused_of_derives s h).not_yields hn

/-- Whatever item is taken, its expression is taken first. -/
theorem TakesItem.exists_expression {p : Parser Syntax} {ls rest : List Lexeme} {item : OrderItem}
    (h : TakesItem p ls item rest) : ∃ e mid, Yields (p ls) e mid := by
  cases h with
  | plain he _ => exact ⟨_, _, he⟩
  | directed he _ => exact ⟨_, _, he⟩

/-- The parser of items refuses what is nested too deep. -/
theorem orderItem_refuses (s : Setting) (levels : Nat) :
    Refuses (orderItem (expressionOf (operand s levels))) DerivesItem EndsItem levels := by
  intro ts tree n h hn ls rest hreads hstop item rest' hitem
  obtain ⟨e, mid, he⟩ := (orderItem_yields.mp hitem).exists_expression
  have hrefuses := expression_refuses s levels
  cases h with
  | plain h => exact hrefuses _ _ _ h hn ls rest hreads (hstop.mono fun _ ht => ht.1) e mid he
  | directed h d =>
    obtain ⟨l, hts, hd⟩ := hreads.of_concat
    exact hrefuses _ _ _ h hn ls _ hts
      (.cons hd (ends_expression (.inr (.inr ⟨d, rfl⟩)))) e mid he

/-- The parser of sort orders refuses what is nested too deep. -/
theorem orderItems_refuses (s : Setting) (levels : Nat) :
    Refuses (orderItems (expressionOf (operand s levels))) (Listed DerivesItem)
      (fun t => EndsItem t ∧ t ≠ .symbol .comma) levels := by
  intro ts trees n h hn ls rest hreads hstop items rest' hitems
  exact (orderItem_refuses s levels).not_separated (orderItem_isComplete s levels) endsItem_comma h
    hn hreads (hstop.mono fun _ ht => ht.1) items rest' (orderItems_yields.mp hitems)

end EntityQuery.Parser
