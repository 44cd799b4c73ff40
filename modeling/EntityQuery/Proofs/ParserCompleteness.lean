import EntityQuery.Proofs.ParserSoundness

/-!
# Completeness of the parser

Whatever derives is parsed, with its tree, by every parser that has levels left for its nesting.
What follows has to end it (`Ends`): one token is looked at, so a path must not go on with a slash,
nor a chain with an operator of its level or a tighter one.

Operations group to the left in a derivation, and so they do in a chain: when it has come to the end
of the operations on the left of an operator (`Reaches`), one more step brings it to the end of the
whole (`Found.operation`). `found_of_derives` is the induction over derivations, with a lemma for
each of their rules.
-/

open Relation (ReflTransGen)

namespace EntityQuery.Parser

/-! ## What ends an expression -/

/-- A token after operations of a rank ends them: it goes on with no name, and it is no operator of
that rank or a tighter one. -/
structure Ends (rank : Nat) (t : Token) : Prop where
  /-- It does not go on with a path. -/
  ne_slash : t ≠ .symbol .slash
  /-- It does not make a call of a name. -/
  ne_open : t ≠ .symbol .open
  /-- It does not go on with an operation. -/
  looser : ∀ op : BinaryOp, t = op.token → op.level.rank < rank

/-- What ends operations of a rank ends operations of a tighter one. -/
theorem Ends.mono {rank rank' : Nat} {t : Token} (h : Ends rank t) (hrank : rank ≤ rank') :
    Ends rank' t :=
  ⟨h.ne_slash, h.ne_open, fun op hop => Nat.lt_of_lt_of_le (h.looser op hop) hrank⟩

/-- An operator ends the operands of its level. -/
theorem ends_token (op : BinaryOp) : Ends (op.level.rank + 1) op.token := by
  refine ⟨?_, ?_, fun op' hop' => ?_⟩
  · cases op <;> nofun
  · cases op <;> nofun
  · -- Operators differ in their tokens.
    have hsame : op = op' := by
      cases op <;> cases op' <;> cases hop' <;> rfl
    rw [hsame]
    exact Nat.lt_succ_self _

/-- A closing parenthesis, a comma or a direction ends every expression. -/
theorem ends_expression {t : Token} (ht : t = .symbol .close ∨ t = .symbol .comma ∨
    ∃ d : Direction, t = d.token) : Ends Category.expression.rank t := by
  rcases ht with rfl | rfl | ⟨d, rfl⟩
  all_goals exact ⟨nofun, nofun, fun op hop => by cases op <;> cases hop⟩

/-! ## Lists -/

section

variable {α β : Type} {D : List Token → β → Nat → Prop} {p : Parser α} {tree : α → β}
  {stop : Token → Prop} {k : Nat}

/-- Whatever derives at a nesting within a bound is parsed with its tree, where the next token lets
it end. -/
def IsComplete (p : Parser α) (tree : α → β) (D : List Token → β → Nat → Prop)
    (stop : Token → Prop) (k : Nat) : Prop :=
  ∀ ts b n, D ts b n → n ≤ k → ∀ ls rest, Reads ls ts rest → StopsAt stop rest →
    ∃ a, Yields (p ls) a rest ∧ tree a = b

/-- Listed derivations are parsed separated by commas. -/
theorem IsComplete.separated (hp : IsComplete p tree D stop k) (hcomma : stop (.symbol .comma))
    {ts : List Token} {bs : List β} {n : Nat} (h : Listed D ts bs n) (hn : n ≤ k)
    {ls rest : List Lexeme} (hreads : Reads ls ts rest)
    (hstop : StopsAt (fun t => stop t ∧ t ≠ .symbol .comma) rest) :
    ∃ as, Separated p ls as rest ∧ as.map tree = bs := by
  induction h generalizing ls with
  | last h =>
    obtain ⟨a, ha, rfl⟩ := hp _ _ _ h hn ls rest hreads (hstop.mono fun _ ht => ht.1)
    exact ⟨[a], .last ha (hstop.mono fun _ ht => ht.2), rfl⟩
  | more h _ ih =>
    obtain ⟨hm, hn⟩ := Nat.max_le.mp hn
    obtain ⟨l, after, hts, htoken, hus⟩ := hreads.of_between
    obtain ⟨a, ha, rfl⟩ := hp _ _ _ h hm ls _ hts (.cons htoken hcomma)
    obtain ⟨as, has, rfl⟩ := ih hn hus
    exact ⟨a :: as, .more ha htoken has, rfl⟩

end

/-! ## Chains -/

/-- What parses a category has come to the end of what was read. A chain may still go on. -/
def Reaches (operand : Parser Syntax) : Category → List Lexeme → Syntax → List Lexeme → Prop
  | .operations level, ls, e, rest =>
    ∃ first mid, Yields (level.operands.parser operand ls) first mid ∧
      ReflTransGen (ChainStep (level.operands.parser operand) level.op?) (first, mid) (e, rest)
  | .prefixed, ls, e, rest | .primary, ls, e, rest => Yields (operand ls) e rest

/-- Where the next token ends its operations, a chain goes on no further. -/
theorem Reaches.yields {operand : Parser Syntax} {c : Category} {ls rest : List Lexeme}
    {e : Syntax} (h : Reaches operand c ls e rest) (hstop : StopsAt (Ends c.rank) rest) :
    Yields (c.parser operand ls) e rest := by
  cases c with
  | operations level =>
    obtain ⟨first, mid, hfirst, hsteps⟩ := h
    rw [Category.parser_operations]
    -- An operator of the level would not be looser than the level.
    refine chain_yields.mpr ⟨first, mid, hfirst, hsteps, hstop.mono fun t hends => ?_⟩
    cases hop : level.op? t with
    | none => rfl
    | some op =>
      obtain ⟨htoken, rfl⟩ := Level.op?_eq_some.mp hop
      exact absurd (hends.looser op htoken) (Nat.lt_irrefl _)
  | prefixed => exact h
  | primary => exact h

/-! ## Operands -/

/-- Segments that are read are taken, where no slash follows. -/
theorem exists_takesSegments {names : List String} {ls rest : List Lexeme}
    (hreads : Reads ls (names.flatMap fun name => [.symbol .slash, .ident name]) rest)
    (hstop : StopsAt (· ≠ .symbol .slash) rest) :
    ∃ segments, TakesSegments ls segments rest ∧ segments.map (·.value) = names := by
  induction names generalizing ls with
  | nil =>
    cases hreads
    exact ⟨[], .none hstop, rfl⟩
  | cons name names ih =>
    rw [List.flatMap_cons, List.cons_append] at hreads
    cases hreads with | cons hslash hreads =>
    cases hreads with | @cons l _ _ _ _ hname hreads =>
    obtain ⟨segments, hmore, rfl⟩ := ih hreads
    exact ⟨⟨name, l.span⟩ :: segments, .more hslash hname hmore, rfl⟩

/-- What derives does not begin with a closing parenthesis. -/
theorem stopsAt_of_derives {c : Category} {ts : List Token} {e : Tree} {n : Nat}
    (h : Derives c ts e n) {ls rest : List Lexeme} (hreads : Reads ls ts rest) :
    StopsAt (· ≠ .symbol .close) ls := by
  -- Arguments stand behind the name of their call, so nothing is asked of them.
  induction h using @Derives.rec _ (fun _ _ _ _ => True) generalizing ls rest with
  | operand _ ih => exact ih hreads
  | operation _ _ ihl _ =>
    obtain ⟨mid, hts, -⟩ := hreads.of_append
    exact ihl hts
  | @unary op _ _ _ _ _ =>
    cases hreads with | cons hop _ =>
    exact .cons hop (by cases op <;> nofun)
  | primary _ ih => exact ih hreads
  | literal value =>
    cases hreads with | cons htoken _ =>
    exact .cons htoken (by cases value <;> nofun)
  | path first more =>
    cases hreads with | cons hname _ =>
    exact .cons hname nofun
  | emptyCall name =>
    cases hreads with | cons hname _ =>
    exact .cons hname nofun
  | call _ _ =>
    cases hreads with | cons hname _ =>
    exact .cons hname nofun
  | group _ _ =>
    cases hreads with | cons hopen _ =>
    exact .cons hopen nofun
  | last => trivial
  | more => trivial

/-- What is listed does not begin with a closing parenthesis. -/
theorem stopsAt_of_listed {c : Category} {ts : List Token} {args : List Tree} {n : Nat}
    (h : Listed (Derives c) ts args n) {ls rest : List Lexeme} (hreads : Reads ls ts rest) :
    StopsAt (· ≠ .symbol .close) ls := by
  cases h with
  | last h => exact stopsAt_of_derives h hreads
  | more h _ =>
    obtain ⟨mid, hts, -⟩ := hreads.of_append
    exact stopsAt_of_derives h hts

/-! ## Derivations -/

/-- A derivation is found by the parser of its category, at every number of levels that its nesting
is within. -/
def Found (s : Setting) (c : Category) (ts : List Token) (tree : Tree) (n : Nat) : Prop :=
  ∀ levels, n ≤ levels → ∀ ls rest, Reads ls ts rest → StopsAt (Ends (c.rank + 1)) rest →
    ∃ e, Reaches (operand s levels) c ls e rest ∧ e.tree = tree

/-- A derivation that is found is parsed where the next token ends it. -/
theorem Found.yields {s : Setting} {c : Category} {ts : List Token} {tree : Tree} {n : Nat}
    (h : Found s c ts tree n) {levels : Nat} (hn : n ≤ levels) {ls rest : List Lexeme}
    (hreads : Reads ls ts rest) (hstop : StopsAt (Ends c.rank) rest) :
    ∃ e, Yields (c.parser (operand s levels) ls) e rest ∧ e.tree = tree := by
  obtain ⟨e, he, htree⟩ :=
    h levels hn ls rest hreads (hstop.mono fun _ hends => hends.mono (Nat.le_succ _))
  exact ⟨e, he.yields hstop, htree⟩

/-- The parser of a category is complete for derivations that are found. -/
theorem found_isComplete (s : Setting) (c : Category) (levels : Nat) :
    IsComplete (c.parser (operand s levels)) Syntax.tree (Found s c) (Ends c.rank) levels :=
  fun _ _ _ h hn _ _ => h.yields hn

section

variable {s : Setting} {ts us : List Token} {e left right : Tree} {m n : Nat}

/-- One operand of a level is an operation of it. -/
theorem Found.operand {level : Level} (h : Found s level.operands ts e n) :
    Found s (.operations level) ts e n := by
  intro levels hn ls rest hreads hstop
  rw [Category.rank, ← Level.rank_operands] at hstop
  obtain ⟨e, he, htree⟩ := h.yields hn hreads hstop
  exact ⟨e, ⟨e, rest, he, .refl⟩, htree⟩

/-- A chain that has come to the end of the operations on the left takes one more step, over the
operator and the operand on the right. -/
theorem Found.operation {op : BinaryOp} (hleft : Found s (.operations op.level) ts left m)
    (hright : Found s op.level.operands us right n) :
    Found s (.operations op.level) (ts ++ op.token :: us) (.binary op left right) (max m n) := by
  intro levels hn ls rest hreads hstop
  obtain ⟨hm, hn⟩ := Nat.max_le.mp hn
  obtain ⟨l, after, hts, htoken, hus⟩ := hreads.of_between
  obtain ⟨left, ⟨first, mid, hfirst, hsteps⟩, rfl⟩ :=
    hleft levels hm ls _ hts (.cons htoken (ends_token op))
  rw [Category.rank, ← Level.rank_operands] at hstop
  obtain ⟨right, hoperand, rfl⟩ := hright.yields hn hus hstop
  have hop : op.level.op? op.token = some op := Level.op?_eq_some.mpr ⟨rfl, rfl⟩
  exact ⟨left.join op right,
    ⟨first, mid, hfirst, hsteps.tail (.operation htoken hop hoperand)⟩, rfl⟩

/-- A prefix operator is taken, and its operand one level deeper. -/
theorem Found.unary {op : UnaryOp} (h : Found s .prefixed ts e n) :
    Found s .prefixed (op.token :: ts) (.unary op e) (n + 1) := by
  intro levels hn ls rest hreads hstop
  cases hreads with | cons hop hreads =>
  cases levels with
  | zero => exact absurd hn (Nat.not_succ_le_zero _)
  | succ levels =>
    obtain ⟨e, he, rfl⟩ := h levels (Nat.le_of_succ_le_succ hn) _ rest hreads hstop
    exact ⟨_, operand_yields.mpr (.unary rfl hop he), rfl⟩

/-- A literal is taken. -/
theorem found_literal (value : Literal) :
    Found s .primary [value.token] (.literal value) 0 := by
  intro levels _ ls rest hreads _
  cases hreads with | cons htoken hnil =>
  cases hnil
  exact ⟨_, operand_yields.mpr (.literal htoken), rfl⟩

/-- A path is taken. What follows its last segment is no parenthesis, so it is no call. -/
theorem found_path (first : String) (more : List String) :
    Found s .primary (.ident first :: more.flatMap fun segment => [.symbol .slash, .ident segment])
      (.path (first :: more)) 0 := by
  intro levels _ ls rest hreads hstop
  cases hreads with | @cons _ after _ _ _ hname hreads =>
  obtain ⟨segments, hsegments, rfl⟩ :=
    exists_takesSegments hreads (hstop.mono fun _ hends => hends.ne_slash)
  have hnext : StopsAt (· ≠ .symbol .open) after := by
    cases hsegments with
    | none => exact hstop.mono fun _ hends => hends.ne_open
    | more hslash _ _ => exact .cons hslash nofun
  exact ⟨_, operand_yields.mpr (.path hname hnext hsegments), rfl⟩

/-- A call without arguments is taken. -/
theorem found_emptyCall (name : String) :
    Found s .primary [.ident name, .symbol .open, .symbol .close] (.call name []) 1 := by
  intro levels hn ls rest hreads _
  cases hreads with | cons hname hreads =>
  cases hreads with | cons hopen hreads =>
  cases hreads with | cons hclose hnil =>
  cases hnil
  cases levels with
  | zero => exact absurd hn (Nat.not_succ_le_zero _)
  | succ levels =>
    have hargs : Yields (callArguments (expressionOf (operand s levels)) (_ :: rest)) [] _ :=
      callArguments_yields.mpr (.inl ⟨⟨_, rest, rfl, hclose⟩, rfl, rfl⟩)
    exact ⟨_, operand_yields.mpr (.call rfl hname hopen hargs hclose), rfl⟩

/-- A call is taken, and its arguments one level deeper. -/
theorem Found.call {name : String} {args : List Tree}
    (hderives : Listed (Derives .expression) ts args n)
    (h : Listed (Found s .expression) ts args n) :
    Found s .primary (.ident name :: .symbol .open :: (ts ++ [.symbol .close])) (.call name args)
      (n + 1) := by
  intro levels hn ls rest hreads _
  cases hreads with | cons hname hreads =>
  cases hreads with | cons hopen hreads =>
  obtain ⟨close, hts, hclose⟩ := hreads.of_concat
  cases levels with
  | zero => exact absurd hn (Nat.not_succ_le_zero _)
  | succ levels =>
    obtain ⟨es, hes, rfl⟩ := (found_isComplete s .expression levels).separated
      (ends_expression (.inr (.inl rfl))) h (Nat.le_of_succ_le_succ hn) hts
      (.cons hclose ⟨ends_expression (.inl rfl), nofun⟩)
    have hargs := callArguments_yields.mpr (.inr ⟨stopsAt_of_listed hderives hts, hes⟩)
    refine ⟨_, operand_yields.mpr (.call rfl hname hopen hargs hclose), ?_⟩
    show Tree.call _ (Syntax.tree.trees es) = _
    rw [Syntax.trees_eq_map]

/-- Parentheses are taken, and what is in them one level deeper. -/
theorem Found.group (h : Found s .expression ts e n) :
    Found s .primary (.symbol .open :: (ts ++ [.symbol .close])) e (n + 1) := by
  intro levels hn ls rest hreads _
  cases hreads with | cons hopen hreads =>
  obtain ⟨close, hts, hclose⟩ := hreads.of_concat
  cases levels with
  | zero => exact absurd hn (Nat.not_succ_le_zero _)
  | succ levels =>
    obtain ⟨e, he, rfl⟩ := h.yields (Nat.le_of_succ_le_succ hn) hts
      (.cons hclose (ends_expression (.inl rfl)))
    exact ⟨e, operand_yields.mpr (.group rfl hopen he hclose), rfl⟩

end

/-- Every derivation is found. -/
theorem found_of_derives (s : Setting) {c : Category} {ts : List Token} {tree : Tree} {n : Nat}
    (h : Derives c ts tree n) : Found s c ts tree n := by
  induction h using @Derives.rec _
    (fun ts args n _ => Listed (Found s .expression) ts args n) with
  | operand _ ih => exact ih.operand
  | operation _ _ ihl ihr => exact ihl.operation ihr
  | unary _ ih => exact ih.unary
  | primary _ ih => exact ih
  | literal value => exact found_literal value
  | path first more => exact found_path first more
  | emptyCall name => exact found_emptyCall name
  | call hargs ih => exact .call hargs ih
  | group _ ih => exact ih.group
  | last _ ih => exact .last ih
  | more _ _ ih ihmore => exact .more ih ihmore

/-! ## Expressions and sort orders -/

/-- The parser of expressions is complete. -/
theorem expression_isComplete (s : Setting) (levels : Nat) :
    IsComplete (expressionOf (operand s levels)) Syntax.tree (Derives .expression)
      (Ends Category.expression.rank) levels :=
  fun _ _ _ h hn _ _ => (found_of_derives s h).yields hn

/-- A token that ends an item of a sort order ends expressions, and is no direction. -/
def EndsItem (t : Token) : Prop :=
  Ends Category.expression.rank t ∧ ∀ d : Direction, t ≠ d.token

/-- A comma ends an item of a sort order. -/
theorem endsItem_comma : EndsItem (.symbol .comma) :=
  ⟨ends_expression (.inr (.inl rfl)), nofun⟩

/-- The parser of items is complete. -/
theorem orderItem_isComplete (s : Setting) (levels : Nat) :
    IsComplete (orderItem (expressionOf (operand s levels))) OrderItem.tree DerivesItem EndsItem
      levels := by
  intro ts tree n h hn ls rest hreads hstop
  have hcomplete := expression_isComplete s levels
  cases h with
  | plain h =>
    obtain ⟨e, he, rfl⟩ := hcomplete _ _ _ h hn ls rest hreads (hstop.mono fun _ ht => ht.1)
    exact ⟨_, orderItem_yields.mpr (.plain he (hstop.mono fun _ ht => ht.2)), rfl⟩
  | directed h d =>
    obtain ⟨l, hts, hd⟩ := hreads.of_concat
    obtain ⟨e, he, rfl⟩ := hcomplete _ _ _ h hn ls _ hts
      (.cons hd (ends_expression (.inr (.inr ⟨d, rfl⟩))))
    exact ⟨_, orderItem_yields.mpr (.directed he hd), rfl⟩

/-- The parser of sort orders is complete. -/
theorem orderItems_isComplete (s : Setting) (levels : Nat) :
    IsComplete (orderItems (expressionOf (operand s levels))) (List.map OrderItem.tree)
      (Listed DerivesItem) (fun t => EndsItem t ∧ t ≠ .symbol .comma) levels := by
  intro ts trees n h hn ls rest hreads hstop
  obtain ⟨items, hitems, htrees⟩ :=
    (orderItem_isComplete s levels).separated endsItem_comma h hn hreads hstop
  exact ⟨items, orderItems_yields.mpr hitems, htrees⟩

end EntityQuery.Parser
