import EntityQuery.Proofs.ParserRuns

/-!
# Soundness of the parser

Whatever the parser takes off the front of some lexemes derives. `IsSound` says so of one parser:
the lexemes that it takes are tokens, they derive with the tree that it returns, and the nesting of
the derivation is within a bound. Each step of a chain makes one more operation of what was parsed
so far (`ChainStep.chained`), so chains are sound when their operands are (`IsSound.chain`).
Operands are sound by induction on the number of levels that are left (`operand_isSound`): what is
nested in one is taken by the parsers of one level less.
-/

open Relation (ReflTransGen)

namespace EntityQuery

/-! ## Tokens at the front -/

/-- Lexemes begin with some tokens and go on with others. -/
inductive Reads : List Lexeme → List Token → List Lexeme → Prop
  | nil (rest : List Lexeme) : Reads rest [] rest
  | cons {l : Lexeme} {ls rest : List Lexeme} {t : Token} {ts : List Token}
      (ht : l.token? = some t) (h : Reads ls ts rest) : Reads (l :: ls) (t :: ts) rest

namespace Reads

variable {ls mid rest : List Lexeme} {ts us : List Token} {l : Lexeme} {t : Token}

/-- One token is read. -/
theorem singleton (ht : l.token? = some t) : Reads (l :: rest) [t] rest := .cons ht (.nil rest)

/-- What is read in two parts is read. -/
theorem append (h : Reads ls ts mid) (h' : Reads mid us rest) : Reads ls (ts ++ us) rest := by
  induction h with
  | nil => exact h'
  | cons ht _ ih => exact .cons ht (ih h')

/-- What is read is read in two parts. -/
theorem of_append (h : Reads ls (ts ++ us) rest) : ∃ mid, Reads ls ts mid ∧ Reads mid us rest := by
  induction ts generalizing ls with
  | nil => exact ⟨ls, .nil ls, h⟩
  | cons t ts ih =>
    cases h with | cons ht h =>
    obtain ⟨mid, hts, hus⟩ := ih h
    exact ⟨mid, .cons ht hts, hus⟩

/-- What is read with a token in between is read up to that token, and from there on. -/
theorem of_between (h : Reads ls (ts ++ t :: us) rest) :
    ∃ l after, Reads ls ts (l :: after) ∧ l.token? = some t ∧ Reads after us rest := by
  obtain ⟨mid, hts, hmid⟩ := h.of_append
  cases hmid with | cons ht hus =>
  exact ⟨_, _, hts, ht, hus⟩

/-- What is read with a token at the end is read up to that token. -/
theorem of_concat (h : Reads ls (ts ++ [t]) rest) :
    ∃ l, Reads ls ts (l :: rest) ∧ l.token? = some t := by
  obtain ⟨l, after, hts, ht, hnil⟩ := h.of_between
  cases hnil
  exact ⟨l, hts, ht⟩

/-- Nothing is left when all lexemes are read. -/
theorem of_tokens (ts : List Token) (span : Span) :
    Reads (ts.map fun t => ⟨some t, [], span⟩) ts [] := by
  induction ts with
  | nil => exact .nil []
  | cons t ts ih => exact .cons rfl ih

end Reads

/-! ## Levels -/

/-- The rank of a level. -/
def Level.rank : Level → Nat
  | or => 0
  | and => 1
  | relational => 2
  | additive => 3
  | multiplicative => 4

/-- The rank of a category: the tightest operators that it has between operands. -/
def Category.rank : Category → Nat
  | operations level => level.rank
  | prefixed | primary => 5

/-- The operands of a level are one rank tighter than the level. -/
theorem Level.rank_operands (level : Level) : level.operands.rank = level.rank + 1 := by
  cases level <;> rfl

/-- The operators of a level, as the parser of the level knows them. -/
def Level.op? : Level → Token → Option BinaryOp
  | or => Parser.orOp?
  | and => Parser.andOp?
  | relational => Parser.relationalOp?
  | additive => Parser.additiveOp?
  | multiplicative => Parser.multiplicativeOp?

/-- The parser of a level knows the operators of that level by their tokens, and no others. -/
theorem Level.op?_eq_some {level : Level} {t : Token} {op : BinaryOp} :
    level.op? t = some op ↔ t = op.token ∧ op.level = level := by
  constructor
  · intro h
    cases level
    all_goals
      dsimp only [op?, Parser.orOp?, Parser.andOp?, Parser.relationalOp?, Parser.additiveOp?,
        Parser.multiplicativeOp?] at h
      split at h
      all_goals cases h
      all_goals exact ⟨rfl, rfl⟩
  · rintro ⟨rfl, rfl⟩
    cases op with
    | logical op => cases op <;> rfl
    | relational op => rfl
    | arithmetic op => cases op <;> rfl

/-- The parser of a category, given that of operands. -/
def Category.parser (operand : Parser Syntax) : Category → Parser Syntax
  | operations .or => Parser.expressionOf operand
  | operations .and =>
    Parser.chain Parser.andOp? (Parser.chain Parser.relationalOp? (Parser.chain Parser.additiveOp?
      (Parser.chain Parser.multiplicativeOp? operand)))
  | operations .relational =>
    Parser.chain Parser.relationalOp? (Parser.chain Parser.additiveOp?
      (Parser.chain Parser.multiplicativeOp? operand))
  | operations .additive =>
    Parser.chain Parser.additiveOp? (Parser.chain Parser.multiplicativeOp? operand)
  | operations .multiplicative => Parser.chain Parser.multiplicativeOp? operand
  | prefixed | primary => operand

/-- Operations of a level are a chain of its operands. -/
theorem Category.parser_operations (operand : Parser Syntax) (level : Level) :
    (operations level).parser operand = Parser.chain level.op? (level.operands.parser operand) := by
  cases level <;> rfl

namespace Parser

/-! ## Soundness -/

section

variable {α β : Type} {D : List Token → β → Nat → Prop} {tree : α → β} {k : Nat}

/-- Whatever a parser takes off some lexemes is read from tokens that derive with its tree, at a
nesting that is within a bound. -/
def IsSound (p : Parser α) (tree : α → β) (D : List Token → β → Nat → Prop) (k : Nat) : Prop :=
  ∀ ls a rest, Yields (p ls) a rest → ∃ ts n, Reads ls ts rest ∧ D ts (tree a) n ∧ n ≤ k

/-- Values separated by commas are listed when each of them derives. -/
theorem IsSound.separated {p : Parser α} (hp : IsSound p tree D k) {ls rest : List Lexeme}
    {as : List α} (h : Separated p ls as rest) :
    ∃ ts n, Reads ls ts rest ∧ Listed D ts (as.map tree) n ∧ n ≤ k := by
  induction h with
  | last ha _ =>
    obtain ⟨ts, n, hreads, hd, hn⟩ := hp _ _ _ ha
    exact ⟨ts, n, hreads, .last hd, hn⟩
  | more ha hcomma _ ih =>
    obtain ⟨ts, m, hts, hd, hm⟩ := hp _ _ _ ha
    obtain ⟨us, n, hus, hlisted, hn⟩ := ih
    exact ⟨ts ++ .symbol .comma :: us, max m n, hts.append (.cons hcomma hus), .more hd hlisted,
      Nat.max_le.mpr ⟨hm, hn⟩⟩

end

section

variable {k : Nat} {level : Level} {ls rest : List Lexeme}

/-- What was parsed so far of a chain derives as an operation of its level. -/
def Chained (level : Level) (k : Nat) (ls : List Lexeme) (state : Syntax × List Lexeme) : Prop :=
  ∃ ts n, Reads ls ts state.2 ∧ Derives (.operations level) ts state.1.tree n ∧ n ≤ k

/-- One more operator and operand are one more operation, of what was parsed so far. -/
theorem ChainStep.chained {operand : Parser Syntax} {state state' : Syntax × List Lexeme}
    (hoperand : IsSound operand Syntax.tree (Derives level.operands) k)
    (hstep : ChainStep operand level.op? state state') (h : Chained level k ls state) :
    Chained level k ls state' := by
  obtain ⟨htoken, hop, hright⟩ := hstep
  obtain ⟨ts, m, hts, hleft, hm⟩ := h
  -- What was parsed so far is the left operand, which is how operations group to the left.
  obtain ⟨us, n, hus, hright, hn⟩ := hoperand _ _ _ hright
  obtain ⟨rfl, rfl⟩ := Level.op?_eq_some.mp hop
  exact ⟨_, max m n, hts.append (.cons htoken hus), .operation hleft hright,
    Nat.max_le.mpr ⟨hm, hn⟩⟩

/-- However many steps a chain takes, what was parsed so far derives. -/
theorem Chained.steps {operand : Parser Syntax} {start state : Syntax × List Lexeme}
    (h : Chained level k ls start)
    (hoperand : IsSound operand Syntax.tree (Derives level.operands) k)
    (hsteps : ReflTransGen (ChainStep operand level.op?) start state) :
    Chained level k ls state := by
  induction hsteps with
  | refl => exact h
  | tail _ hstep ih => exact hstep.chained hoperand ih

/-- A chain of operands that derive derives as operations of its level. -/
theorem IsSound.chain (level : Level) {operand : Parser Syntax}
    (hoperand : IsSound operand Syntax.tree (Derives level.operands) k) :
    IsSound (Parser.chain level.op? operand) Syntax.tree (Derives (.operations level)) k := by
  intro ls e rest h
  obtain ⟨first, mid, hfirst, hsteps, -⟩ := chain_yields.mp h
  obtain ⟨ts, n, hreads, hderives, hn⟩ := hoperand _ _ _ hfirst
  have hstart : Chained level k ls (first, mid) := ⟨ts, n, hreads, .operand hderives, hn⟩
  exact hstart.steps hoperand hsteps

/-- Expressions of operands that derive derive. -/
theorem IsSound.expressionOf {operand : Parser Syntax}
    (hoperand : IsSound operand Syntax.tree (Derives .prefixed) k) :
    IsSound (Parser.expressionOf operand) Syntax.tree (Derives .expression) k :=
  -- One chain for each level, from the tightest to the loosest.
  .chain .or (.chain .and (.chain .relational (.chain .additive (.chain .multiplicative hoperand))))

/-- The segments of a path are read with slashes between them. -/
theorem TakesSegments.reads {names : List (Located String)} (h : TakesSegments ls names rest) :
    Reads ls ((names.map (·.value)).flatMap fun name => [.symbol .slash, .ident name]) rest := by
  induction h with
  | none => exact .nil _
  | more hslash hname _ ih => exact .cons hslash (.cons hname ih)

/-- What an operand is taken from derives, when the parsers of the next level down are sound for a
bound that is less by one. -/
theorem TakesOperand.derives {s : Setting} {deeper? : Option Deeper} {e : Syntax}
    (hdeeper : ∀ deeper, deeper? = some deeper → ∃ j, k = j + 1 ∧
      IsSound deeper.operand Syntax.tree (Derives .prefixed) j ∧
      IsSound deeper.expression Syntax.tree (Derives .expression) j)
    (h : TakesOperand s deeper? ls e rest) :
    ∃ ts n, Reads ls ts rest ∧ Derives .prefixed ts e.tree n ∧ n ≤ k := by
  cases h with
  | unary hsome hop h =>
    obtain ⟨j, rfl, hoperand, -⟩ := hdeeper _ hsome
    obtain ⟨ts, n, hts, hd, hn⟩ := hoperand _ _ _ h
    exact ⟨_, n + 1, .cons hop hts, .unary hd, Nat.succ_le_succ hn⟩
  | group hsome hopen h hclose =>
    obtain ⟨j, rfl, -, hexpression⟩ := hdeeper _ hsome
    obtain ⟨ts, n, hts, hd, hn⟩ := hexpression _ _ _ h
    exact ⟨_, n + 1, .cons hopen (hts.append (.singleton hclose)), .primary (.group hd),
      Nat.succ_le_succ hn⟩
  | path hname _ h => exact ⟨_, 0, .cons hname h.reads, .primary (.path _ _), Nat.zero_le k⟩
  | call hsome hname hopen h hclose =>
    obtain ⟨j, rfl, -, hexpression⟩ := hdeeper _ hsome
    -- A call without arguments has a rule of its own, as lists are not empty.
    rcases callArguments_yields.mp h with ⟨-, rfl, rfl⟩ | ⟨-, hargs⟩
    · exact ⟨_, 1, .cons hname (.cons hopen (.singleton hclose)), .primary (.emptyCall _),
        Nat.succ_le_succ (Nat.zero_le j)⟩
    · obtain ⟨ts, n, hts, hd, hn⟩ := hexpression.separated hargs
      refine ⟨_, n + 1, .cons hname (.cons hopen (hts.append (.singleton hclose))), ?_,
        Nat.succ_le_succ hn⟩
      show Derives .prefixed _ (.call _ (Syntax.tree.trees _)) _
      rw [Syntax.trees_eq_map]
      exact .primary (.call hd)
  | literal h => exact ⟨_, 0, .singleton h, .primary (.literal _), Nat.zero_le k⟩

/-- The parser of operands at some number of levels is sound for that bound. -/
theorem operand_isSound (s : Setting) (levels : Nat) :
    IsSound (operand s levels) Syntax.tree (Derives .prefixed) levels := by
  induction levels with
  | zero =>
    intro ls e rest h
    refine (operand_yields.mp h).derives ?_
    intro deeper hsome
    cases hsome
  | succ levels ih =>
    intro ls e rest h
    refine (operand_yields.mp h).derives ?_
    rintro deeper hsome
    cases hsome
    exact ⟨levels, rfl, ih, ih.expressionOf⟩

/-- The parser of items is sound when that of expressions is. -/
theorem IsSound.orderItem {p : Parser Syntax} (hp : IsSound p Syntax.tree (Derives .expression) k) :
    IsSound (Parser.orderItem p) OrderItem.tree DerivesItem k := by
  intro ls item rest h
  cases orderItem_yields.mp h with
  | plain he _ =>
    obtain ⟨ts, n, hts, hd, hn⟩ := hp _ _ _ he
    exact ⟨ts, n, hts, .plain hd, hn⟩
  | directed he hdirection =>
    obtain ⟨ts, n, hts, hd, hn⟩ := hp _ _ _ he
    exact ⟨_, n, hts.append (.singleton hdirection), .directed hd _, hn⟩

/-- The parser of sort orders is sound when that of expressions is. -/
theorem IsSound.orderItems {p : Parser Syntax}
    (hp : IsSound p Syntax.tree (Derives .expression) k) :
    IsSound (Parser.orderItems p) (List.map OrderItem.tree) (Listed DerivesItem) k :=
  fun _ _ _ h => hp.orderItem.separated (orderItems_yields.mp h)

end

end Parser

end EntityQuery
