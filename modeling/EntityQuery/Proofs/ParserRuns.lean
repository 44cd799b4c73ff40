import EntityQuery.Proofs.Grammar
import EntityQuery.Proofs.Run

/-!
# Runs of parsers

A parser returns a value and what is left of the lexemes, with a proof that it took some. `Yields`
forgets the proof. Each parser has a lemma that says all it can do, in both directions, up to
`operandWith_yields` and `orderItem_yields`; none of them opens another parser than its own. Loops
become relations: the loop over the operators of a level is a walk in steps of one operator and its
right operand (`chainFrom_yields`), which stops where the next token is no operator of the level,
and lists with commas are `Separated` (`separated_yields`).
-/

open Relation (ReflTransGen)

namespace EntityQuery

/-- The token of a lexeme that is one. -/
theorem Lexeme.token_eq_ok {l : Lexeme} {t : Located Token} :
    l.token = .ok t ↔ l.token? = some t.value ∧ t.span = l.span := by
  unfold Lexeme.token
  cases l.token? with
  | none => simp
  | some v =>
    constructor
    · intro h
      cases h
      exact ⟨rfl, rfl⟩
    · rintro ⟨hvalue, hspan⟩
      cases hvalue
      rw [← hspan]

namespace Parser

variable {α β : Type} {P Q : List Lexeme → Prop}

/-- A run takes a value off the front of some lexemes and leaves the others. -/
def Yields (x : Except ParseError (α × {rest : List Lexeme // P rest})) (a : α)
    (rest : List Lexeme) : Prop :=
  ∃ h, x = .ok (a, ⟨rest, h⟩)

/-- Nothing is left, or the next lexeme is a token with a property. -/
inductive StopsAt (p : Token → Prop) : List Lexeme → Prop
  | nil : StopsAt p []
  | cons {l : Lexeme} {after : List Lexeme} {t : Token} (ht : l.token? = some t) (h : p t) :
      StopsAt p (l :: after)

/-- What stops at tokens with a property stops at tokens with a weaker one. -/
theorem StopsAt.mono {p q : Token → Prop} {ls : List Lexeme} (h : StopsAt p ls)
    (hpq : ∀ t, p t → q t) : StopsAt q ls := by
  cases h with
  | nil => exact .nil
  | cons ht h => exact .cons ht (hpq _ h)

/-- The token that a run stops at has the property. -/
theorem StopsAt.of_cons {p : Token → Prop} {l : Lexeme} {after : List Lexeme} {t : Token}
    (h : StopsAt p (l :: after)) (ht : l.token? = some t) : p t := by
  cases h with | cons ht' hp =>
  obtain rfl := Option.some.inj (ht'.symm.trans ht)
  exact hp

/-- A run takes one value off some lexemes. -/
theorem Yields.unique {x : Except ParseError (α × {rest : List Lexeme // P rest})} {a b : α}
    {rest rest' : List Lexeme} (h : Yields x a rest) (h' : Yields x b rest') :
    a = b ∧ rest = rest' := by
  obtain ⟨_, rfl⟩ := h
  obtain ⟨_, h'⟩ := h'
  cases h'
  exact ⟨rfl, rfl⟩

/-- A run goes on after a part of it that succeeds. -/
theorem bind_yields {x : Except ParseError α}
    {f : α → Except ParseError (β × {rest : List Lexeme // P rest})} {b : β}
    {rest : List Lexeme} :
    Yields (x >>= f) b rest ↔ ∃ a, x = .ok a ∧ Yields (f a) b rest := by
  constructor
  · rintro ⟨h, hrun⟩
    obtain ⟨a, ha, hf⟩ := except_bind_eq_ok.mp hrun
    exact ⟨a, ha, h, hf⟩
  · rintro ⟨a, ha, h, hf⟩
    exact ⟨h, except_bind_eq_ok.mpr ⟨a, ha, hf⟩⟩

/-- A run that returns leaves what it returns. -/
theorem pure_yields {a b : α} {rest rest' : List Lexeme} {h : P rest} :
    Yields (pure (a, ⟨rest, h⟩) : Except ParseError (α × {rest : List Lexeme // P rest})) b rest' ↔
      b = a ∧ rest' = rest := by
  constructor
  · rintro ⟨_, h⟩
    cases h
    exact ⟨rfl, rfl⟩
  · rintro ⟨rfl, rfl⟩
    exact ⟨h, rfl⟩

/-- A run that throws takes nothing. -/
theorem not_throw_yields {e : ParseError} {a : α} {rest : List Lexeme} :
    ¬Yields (throw e : Except ParseError (α × {rest : List Lexeme // P rest})) a rest := by
  rintro ⟨_, h⟩
  cases h

/-! ## Single tokens -/

/-- A token that comes first is the next one. -/
theorem next_cons {s : Setting} {l : Lexeme} {after : List Lexeme} {t : Token}
    (h : l.token? = some t) :
    next s (l :: after) = .ok (⟨t, l.span⟩, ⟨after, Nat.lt_succ_self _⟩) :=
  except_map_eq_ok.mpr ⟨⟨t, l.span⟩, Lexeme.token_eq_ok.mpr ⟨h, rfl⟩, rfl⟩

/-- The next token is the first lexeme, which is a token. -/
theorem next_yields {s : Setting} {ls rest : List Lexeme} {t : Located Token} :
    Yields (next s ls) t rest ↔
      ∃ l, ls = l :: rest ∧ l.token? = some t.value ∧ t.span = l.span := by
  constructor
  · rintro ⟨_, h⟩
    cases ls with
    | nil => cases h
    | cons l after =>
      obtain ⟨t', htoken, heq⟩ := except_map_eq_ok.mp h
      cases heq
      exact ⟨l, rfl, Lexeme.token_eq_ok.mp htoken⟩
  · rintro ⟨l, rfl, htoken, hspan⟩
    refine ⟨Nat.lt_succ_self _, ?_⟩
    rw [next_cons htoken, ← hspan]

/-- The closing parenthesis is the first lexeme. -/
theorem closing_yields {s : Setting} {ls rest : List Lexeme} {t : Located Token} :
    Yields (closing s ls) t rest ↔
      ∃ l, ls = l :: rest ∧ l.token? = some (.symbol .close) ∧
        t = ⟨.symbol .close, l.span⟩ := by
  unfold closing
  rw [bind_yields]
  constructor
  · rintro ⟨⟨t', rest', h⟩, hnext, hclose⟩
    obtain ⟨l, rfl, htoken, hspan⟩ := next_yields.mp ⟨h, hnext⟩
    dsimp only at hclose
    split at hclose
    next hvalue =>
      obtain ⟨rfl, rfl⟩ := pure_yields.mp hclose
      rw [hvalue] at htoken
      refine ⟨l, rfl, htoken, ?_⟩
      rw [← hvalue, ← hspan]
    next => exact absurd hclose not_throw_yields
  · rintro ⟨l, rfl, htoken, rfl⟩
    refine ⟨_, next_cons htoken, ?_⟩
    dsimp only
    rw [if_pos rfl]
    exact pure_yields.mpr ⟨rfl, rfl⟩

/-- A name is the first lexeme. -/
theorem name_yields {s : Setting} {ls rest : List Lexeme} {t : Located String} :
    Yields (name s ls) t rest ↔
      ∃ l, ls = l :: rest ∧ l.token? = some (.ident t.value) ∧ t.span = l.span := by
  unfold name
  rw [bind_yields]
  constructor
  · rintro ⟨⟨t', rest', h⟩, hnext, hname⟩
    obtain ⟨l, rfl, htoken, hspan⟩ := next_yields.mp ⟨h, hnext⟩
    dsimp only at hname
    split at hname
    next value hvalue =>
      obtain ⟨rfl, rfl⟩ := pure_yields.mp hname
      rw [hvalue] at htoken
      exact ⟨l, rfl, htoken, hspan⟩
    next => exact absurd hname not_throw_yields
  · rintro ⟨l, rfl, htoken, hspan⟩
    refine ⟨_, next_cons htoken, ?_⟩
    dsimp only
    refine pure_yields.mpr ⟨?_, rfl⟩
    rw [← hspan]

/-- The first lexeme is a certain token. -/
def Begins (t : Token) (ls : List Lexeme) : Prop :=
  ∃ l after, ls = l :: after ∧ l.token? = some t

/-- A run that looks for a certain token first goes on by whether it is there. -/
theorem peek_yields {t : Token} {ls rest : List Lexeme} {a : α}
    {x y : Except ParseError (α × {rest : List Lexeme // P rest})} :
    Yields (peek ls >>= fun next? => if next? = some t then x else y) a rest ↔
      Begins t ls ∧ Yields x a rest ∨ StopsAt (· ≠ t) ls ∧ Yields y a rest := by
  cases ls with
  | nil =>
    constructor
    · intro h
      exact .inr ⟨.nil, h⟩
    · rintro (⟨⟨l, after, hcons, -⟩, -⟩ | ⟨-, h⟩)
      · cases hcons
      · exact h
  | cons l after =>
    rw [bind_yields]
    constructor
    · rintro ⟨next?, hpeek, h⟩
      obtain ⟨t', htoken, rfl⟩ := except_map_eq_ok.mp hpeek
      have htoken := (Lexeme.token_eq_ok.mp htoken).1
      split at h
      next hnext =>
        rw [Option.some.inj hnext] at htoken
        exact .inl ⟨⟨l, after, rfl, htoken⟩, h⟩
      next hnext => exact .inr ⟨.cons htoken fun heq => hnext (congrArg some heq), h⟩
    · have hpeek : ∀ {t'}, l.token? = some t' → peek (l :: after) = .ok (some t') := fun htoken =>
        except_map_eq_ok.mpr ⟨⟨_, l.span⟩, Lexeme.token_eq_ok.mpr ⟨htoken, rfl⟩, rfl⟩
      rintro (⟨⟨_, _, hcons, htoken⟩, h⟩ | ⟨hstop, h⟩)
      · cases hcons
        refine ⟨_, hpeek htoken, ?_⟩
        rw [if_pos rfl]
        exact h
      · cases hstop with | cons htoken hne =>
        refine ⟨_, hpeek htoken, ?_⟩
        rw [if_neg fun heq => hne (Option.some.inj heq)]
        exact h

/-! ## Operators between operands -/

/-- One more operator and its right operand are taken: what was parsed so far, and the lexemes that
are left, before and after. -/
inductive ChainStep (operand : Parser Syntax) (op? : Token → Option BinaryOp) :
    Syntax × List Lexeme → Syntax × List Lexeme → Prop
  | operation {left right : Syntax} {l : Lexeme} {after rest : List Lexeme} {t : Token}
      {op : BinaryOp} (ht : l.token? = some t) (hop : op? t = some op)
      (hright : Yields (operand after) right rest) :
      ChainStep operand op? (left, l :: after) (left.join op right, rest)

/-- Going on from a left operand looks at one token: it takes a step, or it stops. -/
theorem chainFrom_cons_yields {operand : Parser Syntax} {op? : Token → Option BinaryOp}
    {left e : Syntax} {l : Lexeme} {after rest : List Lexeme} :
    Yields (chainFrom operand op? left (l :: after)) e rest ↔
      ∃ t, l.token? = some t ∧
        (op? t = none ∧ e = left ∧ rest = l :: after ∨
          ∃ op right mid, op? t = some op ∧ Yields (operand after) right mid ∧
            Yields (chainFrom operand op? (left.join op right) mid) e rest) := by
  rw [chainFrom, bind_yields]
  constructor
  · rintro ⟨t, htoken, h⟩
    refine ⟨t.value, (Lexeme.token_eq_ok.mp htoken).1, ?_⟩
    split at h
    next hop => exact .inl ⟨hop, pure_yields.mp h⟩
    next op hop =>
      obtain ⟨⟨right, mid, hmid⟩, hright, h⟩ := bind_yields.mp h
      obtain ⟨⟨result, rest', hrest'⟩, hresult, h⟩ := bind_yields.mp h
      obtain ⟨rfl, rfl⟩ := pure_yields.mp h
      exact .inr ⟨op, right, mid, hop, ⟨hmid, hright⟩, hrest', hresult⟩
  · rintro ⟨t, htoken, h⟩
    refine ⟨⟨t, l.span⟩, Lexeme.token_eq_ok.mpr ⟨htoken, rfl⟩, ?_⟩
    rcases h with ⟨hop, rfl, rfl⟩ | ⟨op, right, mid, hop, ⟨hmid, hright⟩, hrest', hresult⟩
    · dsimp only
      rw [hop]
      exact pure_yields.mpr ⟨rfl, rfl⟩
    · dsimp only
      rw [hop]
      refine bind_yields.mpr ⟨_, hright, ?_⟩
      exact bind_yields.mpr ⟨_, hresult, pure_yields.mpr ⟨rfl, rfl⟩⟩

/-- Going on from a left operand takes steps until there is no operator of the level. -/
theorem chainFrom_yields {operand : Parser Syntax} {op? : Token → Option BinaryOp}
    {left e : Syntax} {ls rest : List Lexeme} :
    Yields (chainFrom operand op? left ls) e rest ↔
      ReflTransGen (ChainStep operand op?) (left, ls) (e, rest) ∧
        StopsAt (fun t => op? t = none) rest := by
  constructor
  · -- The induction is on the lexemes that are left: an operator and its operand take some.
    intro h
    induction hlength : ls.length using Nat.strongRecOn generalizing left ls with
    | ind length ih =>
      cases ls with
      | nil =>
        rw [chainFrom] at h
        obtain ⟨rfl, rfl⟩ := pure_yields.mp h
        exact ⟨.refl, .nil⟩
      | cons l after =>
        obtain ⟨t, htoken, ⟨hop, rfl, rfl⟩ | ⟨op, right, mid, hop, hright, h⟩⟩ :=
          chainFrom_cons_yields.mp h
        · exact ⟨.refl, .cons htoken hop⟩
        · have hshorter : mid.length < length := by
            obtain ⟨hmid, -⟩ := hright
            rw [← hlength, List.length_cons]
            omega
          obtain ⟨hsteps, hstop⟩ := ih mid.length hshorter h rfl
          exact ⟨hsteps.head (.operation htoken hop hright), hstop⟩
  · -- The loop takes the first step first, so the steps are put back from the last one on.
    rintro ⟨hsteps, hstop⟩
    generalize hstart : (left, ls) = start at hsteps
    induction hsteps using ReflTransGen.head_induction_on generalizing left ls with
    | refl =>
      cases hstart
      cases hstop with
      | nil =>
        rw [chainFrom]
        exact pure_yields.mpr ⟨rfl, rfl⟩
      | cons htoken hop => exact chainFrom_cons_yields.mpr ⟨_, htoken, .inl ⟨hop, rfl, rfl⟩⟩
    | head hstep _ ih =>
      cases hstart
      obtain @⟨_, right, _, _, mid, t, op, htoken, hop, hright⟩ := hstep
      exact chainFrom_cons_yields.mpr ⟨t, htoken, .inr ⟨op, right, mid, hop, hright, ih rfl⟩⟩

/-- A chain takes an operand, and goes on from there. -/
theorem chain_yields {operand : Parser Syntax} {op? : Token → Option BinaryOp} {e : Syntax}
    {ls rest : List Lexeme} :
    Yields (chain op? operand ls) e rest ↔
      ∃ first mid, Yields (operand ls) first mid ∧
        ReflTransGen (ChainStep operand op?) (first, mid) (e, rest) ∧
          StopsAt (fun t => op? t = none) rest := by
  unfold chain
  rw [bind_yields]
  constructor
  · rintro ⟨⟨first, mid, hmid⟩, hfirst, h⟩
    obtain ⟨⟨result, rest', hrest'⟩, hresult, h⟩ := bind_yields.mp h
    obtain ⟨rfl, rfl⟩ := pure_yields.mp h
    exact ⟨first, mid, ⟨hmid, hfirst⟩, chainFrom_yields.mp ⟨hrest', hresult⟩⟩
  · rintro ⟨first, mid, ⟨hmid, hfirst⟩, hsteps⟩
    obtain ⟨hrest', hresult⟩ := chainFrom_yields.mpr hsteps
    refine ⟨_, hfirst, ?_⟩
    exact bind_yields.mpr ⟨_, hresult, pure_yields.mpr ⟨rfl, rfl⟩⟩

/-! ## Lists with commas -/

/-- Values are taken off some lexemes with commas between them, as long as there is a comma. -/
inductive Separated {α : Type} (p : Parser α) : List Lexeme → List α → List Lexeme → Prop
  | last {ls rest : List Lexeme} {a : α} (h : Yields (p ls) a rest)
      (hstop : StopsAt (· ≠ .symbol .comma) rest) : Separated p ls [a] rest
  | more {ls after rest : List Lexeme} {l : Lexeme} {a : α} {as : List α}
      (h : Yields (p ls) a (l :: after)) (hcomma : l.token? = some (.symbol .comma))
      (hmore : Separated p after as rest) : Separated p ls (a :: as) rest

/-- What is left after a comma and more values is shorter than all. -/
theorem length_lt_of_cons {ls mid after rest : List Lexeme} {l : Lexeme}
    (hmid : mid.length < ls.length) (hcons : mid = l :: after)
    (hrest : rest.length < after.length) : rest.length < ls.length := by
  rw [hcons, List.length_cons] at hmid
  omega

/-- What every list with commas does: take a value and, if a comma follows, more of them. -/
def oneOrMore (p : Parser α) (more : Parser (List α)) : Parser (List α) := fun ls => do
  let (a, rest) ← p ls
  match h : rest.1 with
  | [] => return ([a], rest)
  | l :: after => do
    let t ← l.token
    if t.value = .symbol .comma then
      let (as, rest') ← more after
      return (a :: as, ⟨rest'.1, length_lt_of_cons rest.2 h rest'.2⟩)
    else return ([a], rest)

/-- Taking values while commas follow takes one value, and more of them if a comma is next. -/
theorem oneOrMore_yields {p : Parser α} {more : Parser (List α)} {ls rest : List Lexeme}
    {as : List α} :
    Yields (oneOrMore p more ls) as rest ↔
      ∃ a mid, Yields (p ls) a mid ∧
        (as = [a] ∧ rest = mid ∧ StopsAt (· ≠ .symbol .comma) mid ∨
          ∃ l after as', mid = l :: after ∧ l.token? = some (.symbol .comma) ∧
            Yields (more after) as' rest ∧ as = a :: as') := by
  unfold oneOrMore
  rw [bind_yields]
  constructor
  · rintro ⟨⟨a, mid, hmid⟩, ha, h⟩
    refine ⟨a, mid, ⟨hmid, ha⟩, ?_⟩
    cases mid with
    | nil =>
      obtain ⟨rfl, rfl⟩ := pure_yields.mp h
      exact .inl ⟨rfl, rfl, .nil⟩
    | cons l after =>
      obtain ⟨t, htoken, h⟩ := bind_yields.mp h
      have htoken := (Lexeme.token_eq_ok.mp htoken).1
      split at h
      next hcomma =>
        obtain ⟨⟨as', rest', hrest'⟩, hmore, h⟩ := bind_yields.mp h
        obtain ⟨rfl, rfl⟩ := pure_yields.mp h
        rw [hcomma] at htoken
        exact .inr ⟨l, after, as', rfl, htoken, ⟨hrest', hmore⟩, rfl⟩
      next hcomma =>
        obtain ⟨rfl, rfl⟩ := pure_yields.mp h
        exact .inl ⟨rfl, rfl, .cons htoken hcomma⟩
  · rintro ⟨a, mid, ⟨hmid, ha⟩,
      ⟨rfl, rfl, hstop⟩ | ⟨l, after, as', rfl, htoken, ⟨hrest', hmore⟩, rfl⟩⟩
    · refine ⟨_, ha, ?_⟩
      cases hstop with
      | nil => exact pure_yields.mpr ⟨rfl, rfl⟩
      | @cons l _ t htoken hcomma =>
        refine bind_yields.mpr ⟨⟨t, l.span⟩, Lexeme.token_eq_ok.mpr ⟨htoken, rfl⟩, ?_⟩
        dsimp only
        rw [if_neg hcomma]
        exact pure_yields.mpr ⟨rfl, rfl⟩
    · refine ⟨_, ha, ?_⟩
      refine bind_yields.mpr ⟨⟨_, l.span⟩, Lexeme.token_eq_ok.mpr ⟨htoken, rfl⟩, ?_⟩
      dsimp only
      rw [if_pos rfl]
      exact bind_yields.mpr ⟨_, hmore, pure_yields.mpr ⟨rfl, rfl⟩⟩

/-- A parser that takes values while commas follow takes them separated by commas. -/
theorem separated_yields {p : Parser α} (list : Parser (List α))
    (hlist : ∀ ls, list ls = oneOrMore p list ls) {ls rest : List Lexeme} {as : List α} :
    Yields (list ls) as rest ↔ Separated p ls as rest := by
  constructor
  · -- A value and a comma take some lexemes, so the induction is on those that are left.
    intro h
    induction hlength : ls.length using Nat.strongRecOn generalizing ls as with
    | ind length ih =>
      rw [hlist, oneOrMore_yields] at h
      obtain ⟨a, mid, ha, ⟨rfl, rfl, hstop⟩ | ⟨l, after, as', rfl, hcomma, hmore, rfl⟩⟩ := h
      · exact .last ha hstop
      · have hshorter : after.length < length := by
          obtain ⟨hmid, -⟩ := ha
          rw [List.length_cons] at hmid
          omega
        exact .more ha hcomma (ih after.length hshorter hmore rfl)
  · intro h
    induction h with
    | last ha hstop =>
      rw [hlist, oneOrMore_yields]
      exact ⟨_, _, ha, .inl ⟨rfl, rfl, hstop⟩⟩
    | more ha hcomma _ ih =>
      rw [hlist, oneOrMore_yields]
      exact ⟨_, _, ha, .inr ⟨_, _, _, rfl, hcomma, ih, rfl⟩⟩

/-- The arguments of a call are a list with commas. -/
theorem arguments_eq (p : Parser Syntax) (ls : List Lexeme) :
    arguments p ls = oneOrMore p (arguments p) ls := by
  rw [arguments]
  rfl

/-- The items of a sort order are a list with commas. -/
theorem orderItems_eq (p : Parser Syntax) (ls : List Lexeme) :
    orderItems p ls = oneOrMore (orderItem p) (orderItems p) ls := by
  rw [orderItems]
  rfl

/-- The arguments of a call are separated by commas. -/
theorem arguments_yields {p : Parser Syntax} {ls rest : List Lexeme} {es : List Syntax} :
    Yields (arguments p ls) es rest ↔ Separated p ls es rest :=
  separated_yields (arguments p) (arguments_eq p)

/-- The items of a sort order are separated by commas. -/
theorem orderItems_yields {p : Parser Syntax} {ls rest : List Lexeme} {items : List OrderItem} :
    Yields (orderItems p ls) items rest ↔ Separated (orderItem p) ls items rest :=
  separated_yields (orderItems p) (orderItems_eq p)

/-! ## Operands -/

/-- Further segments of a path, each with a slash before it, as long as there is a slash. -/
inductive TakesSegments : List Lexeme → List (Located String) → List Lexeme → Prop
  | none {rest : List Lexeme} (hstop : StopsAt (· ≠ .symbol .slash) rest) :
      TakesSegments rest [] rest
  | more {slash l : Lexeme} {after rest : List Lexeme} {name : String}
      {segments : List (Located String)} (hslash : slash.token? = some (.symbol .slash))
      (hname : l.token? = some (.ident name)) (hmore : TakesSegments after segments rest) :
      TakesSegments (slash :: l :: after) (⟨name, l.span⟩ :: segments) rest

/-- The segments of a path are read while slashes follow. -/
theorem segments_yields {s : Setting} {ls rest : List Lexeme} {names : List (Located String)} :
    Yields (segments s ls) names rest ↔ TakesSegments ls names rest := by
  constructor
  · intro h
    induction hlength : ls.length using Nat.strongRecOn generalizing ls names with
    | ind length ih =>
      cases ls with
      | nil =>
        rw [segments] at h
        obtain ⟨rfl, rfl⟩ := pure_yields.mp h
        exact .none .nil
      | cons slash after =>
        rw [segments] at h
        obtain ⟨t, htoken, h⟩ := bind_yields.mp h
        have htoken := (Lexeme.token_eq_ok.mp htoken).1
        split at h
        next hslash =>
          obtain ⟨⟨⟨value, span⟩, mid, hmid⟩, hname, h⟩ := bind_yields.mp h
          obtain ⟨⟨more, rest', hrest'⟩, hmore, h⟩ := bind_yields.mp h
          obtain ⟨rfl, rfl⟩ := pure_yields.mp h
          obtain ⟨l, rfl, hident, rfl⟩ := name_yields.mp ⟨hmid, hname⟩
          rw [hslash] at htoken
          have hshorter : mid.length < length := by
            rw [← hlength, List.length_cons, List.length_cons]
            omega
          exact .more htoken hident (ih mid.length hshorter ⟨hrest', hmore⟩ rfl)
        next hslash =>
          obtain ⟨rfl, rfl⟩ := pure_yields.mp h
          exact .none (.cons htoken hslash)
  · intro h
    induction h with
    | none hstop =>
      cases hstop with
      | nil =>
        rw [segments]
        exact pure_yields.mpr ⟨rfl, rfl⟩
      | @cons l _ t htoken hslash =>
        rw [segments]
        refine bind_yields.mpr ⟨⟨t, l.span⟩, Lexeme.token_eq_ok.mpr ⟨htoken, rfl⟩, ?_⟩
        dsimp only
        rw [if_neg hslash]
        exact pure_yields.mpr ⟨rfl, rfl⟩
    | @more slash l after rest name _ hslash hname _ ih =>
      rw [segments]
      refine bind_yields.mpr ⟨⟨_, slash.span⟩, Lexeme.token_eq_ok.mpr ⟨hslash, rfl⟩, ?_⟩
      dsimp only
      rw [if_pos rfl]
      obtain ⟨hmid, hnext⟩ : Yields (Parser.name s (l :: after)) ⟨name, l.span⟩ after :=
        name_yields.mpr ⟨l, rfl, hname, rfl⟩
      obtain ⟨hrest, hmore⟩ := ih
      refine bind_yields.mpr ⟨_, hnext, ?_⟩
      exact bind_yields.mpr ⟨_, hmore, pure_yields.mpr ⟨rfl, rfl⟩⟩

/-- Between the parentheses of a call there is nothing, or there are arguments. -/
theorem callArguments_yields {p : Parser Syntax} {ls rest : List Lexeme} {es : List Syntax} :
    Yields (callArguments p ls) es rest ↔
      Begins (.symbol .close) ls ∧ es = [] ∧ rest = ls ∨
        StopsAt (· ≠ .symbol .close) ls ∧ Separated p ls es rest := by
  unfold callArguments
  rw [peek_yields, pure_yields, bind_yields, ← arguments_yields]
  refine or_congr_right (and_congr_right fun _ => ?_)
  constructor
  · rintro ⟨⟨es', rest', hrest'⟩, hes, h⟩
    obtain ⟨rfl, rfl⟩ := pure_yields.mp h
    exact ⟨hrest', hes⟩
  · rintro ⟨hrest, hes⟩
    exact ⟨_, hes, pure_yields.mpr ⟨rfl, rfl⟩⟩

/-- The prefix operator that a token is has that token. -/
theorem unaryOp?_eq_some {t : Token} {op : UnaryOp} : unaryOp? t = some op ↔ t = op.token := by
  constructor
  · intro h
    unfold unaryOp? at h
    split at h
    all_goals cases h
    all_goals rfl
  · rintro rfl
    cases op <;> rfl

/-- The literal that a token is has that token. -/
theorem literal?_eq_some {t : Token} {value : Literal} :
    literal? t = some value ↔ t = value.token := by
  constructor
  · intro h
    unfold literal? at h
    split at h
    all_goals cases h
    all_goals rfl
  · rintro rfl
    cases value <;> rfl

/-- What an operand is taken from, by what it begins with. -/
inductive TakesOperand (s : Setting) (deeper? : Option Deeper) :
    List Lexeme → Syntax → List Lexeme → Prop
  | unary {deeper : Deeper} {l : Lexeme} {after rest : List Lexeme} {op : UnaryOp} {e : Syntax}
      (hdeeper : deeper? = some deeper) (hop : l.token? = some op.token)
      (h : Yields (deeper.operand after) e rest) :
      TakesOperand s deeper? (l :: after) (.unary op e (l.span.merge e.span)) rest
  | group {deeper : Deeper} {l close : Lexeme} {after rest : List Lexeme} {e : Syntax}
      (hdeeper : deeper? = some deeper) (hopen : l.token? = some (.symbol .open))
      (h : Yields (deeper.expression after) e (close :: rest))
      (hclose : close.token? = some (.symbol .close)) : TakesOperand s deeper? (l :: after) e rest
  | path {l : Lexeme} {after rest : List Lexeme} {name : String} {more : List (Located String)}
      (hname : l.token? = some (.ident name)) (hnext : StopsAt (· ≠ .symbol .open) after)
      (h : TakesSegments after more rest) :
      TakesOperand s deeper? (l :: after)
        (.path (name :: more.map (·.value))
          (more.foldl (fun span segment => span.merge segment.span) l.span)) rest
  | call {deeper : Deeper} {l parenthesis close : Lexeme} {after rest : List Lexeme}
      {name : String} {args : List Syntax} (hdeeper : deeper? = some deeper)
      (hname : l.token? = some (.ident name))
      (hopen : parenthesis.token? = some (.symbol .open))
      (h : Yields (callArguments deeper.expression after) args (close :: rest))
      (hclose : close.token? = some (.symbol .close)) :
      TakesOperand s deeper? (l :: parenthesis :: after)
        (.call ⟨name, l.span⟩ args (l.span.merge close.span)) rest
  | literal {l : Lexeme} {rest : List Lexeme} {value : Literal}
      (h : l.token? = some value.token) :
      TakesOperand s deeper? (l :: rest) (.literal value l.span) rest

/-- After a name come the arguments of a call, or the further segments of a path. -/
theorem afterName_yields {s : Setting} {deeper? : Option Deeper} {first : Located String}
    {ls rest : List Lexeme} {e : Syntax} :
    Yields (afterName s deeper? first ls) e rest ↔
      (∃ deeper l after args close, deeper? = some deeper ∧ ls = l :: after ∧
        l.token? = some (.symbol .open) ∧
        Yields (callArguments deeper.expression after) args (close :: rest) ∧
        close.token? = some (.symbol .close) ∧
        e = .call first args (first.span.merge close.span)) ∨
      StopsAt (· ≠ .symbol .open) ls ∧ ∃ more, TakesSegments ls more rest ∧
        e = .path (first.value :: more.map (·.value))
          (more.foldl (fun span segment => span.merge segment.span) first.span) := by
  unfold afterName
  rw [peek_yields]
  refine or_congr ?_ (and_congr_right fun _ => ?_)
  · constructor
    · rintro ⟨⟨l, after, rfl, hopen⟩, h⟩
      cases deeper? with
      | none => exact absurd h not_throw_yields
      | some deeper =>
        obtain ⟨⟨args, mid, hmid⟩, hargs, h⟩ := bind_yields.mp h
        obtain ⟨⟨t, rest', hrest'⟩, hclosing, h⟩ := bind_yields.mp h
        obtain ⟨rfl, rfl⟩ := pure_yields.mp h
        obtain ⟨close, rfl, hclose, rfl⟩ := closing_yields.mp ⟨hrest', hclosing⟩
        exact ⟨deeper, l, after, args, close, rfl, rfl, hopen, ⟨hmid, hargs⟩, hclose, rfl⟩
    · rintro ⟨deeper, l, after, args, close, rfl, rfl, hopen, ⟨hmid, hargs⟩, hclose, rfl⟩
      refine ⟨⟨l, after, rfl, hopen⟩, bind_yields.mpr ⟨_, hargs, ?_⟩⟩
      obtain ⟨hrest, hclosing⟩ :
          Yields (closing s (close :: rest)) ⟨.symbol .close, close.span⟩ rest :=
        closing_yields.mpr ⟨close, rfl, hclose, rfl⟩
      exact bind_yields.mpr ⟨_, hclosing, pure_yields.mpr ⟨rfl, rfl⟩⟩
  · rw [bind_yields]
    constructor
    · rintro ⟨⟨more, rest', hrest'⟩, hmore, h⟩
      obtain ⟨rfl, rfl⟩ := pure_yields.mp h
      exact ⟨more, segments_yields.mp ⟨hrest', hmore⟩, rfl⟩
    · rintro ⟨more, hmore, rfl⟩
      obtain ⟨hrest, hmore⟩ := segments_yields.mpr hmore
      exact ⟨_, hmore, pure_yields.mpr ⟨rfl, rfl⟩⟩

/-- An operand is taken in one of these ways. -/
theorem operandWith_yields {s : Setting} {deeper? : Option Deeper} {ls rest : List Lexeme}
    {e : Syntax} :
    Yields (operandWith s deeper? ls) e rest ↔ TakesOperand s deeper? ls e rest := by
  unfold operandWith
  rw [bind_yields]
  constructor
  · -- The first token decides: a prefix operator, a parenthesis, a name, or else a literal.
    rintro ⟨⟨⟨t, span⟩, after, hafter⟩, hnext, h⟩
    obtain ⟨l, rfl, htoken, rfl⟩ := next_yields.mp ⟨hafter, hnext⟩
    dsimp only at h htoken
    split at h
    next op hop =>
      rw [unaryOp?_eq_some.mp hop] at htoken
      cases deeper? with
      | none => exact absurd h not_throw_yields
      | some deeper =>
        obtain ⟨⟨e', rest', hrest'⟩, he, h⟩ := bind_yields.mp h
        obtain ⟨rfl, rfl⟩ := pure_yields.mp h
        exact .unary rfl htoken ⟨hrest', he⟩
    next =>
      split at h
      next =>
        cases deeper? with
        | none => exact absurd h not_throw_yields
        | some deeper =>
          obtain ⟨⟨e', mid, hmid⟩, he, h⟩ := bind_yields.mp h
          obtain ⟨⟨t', rest', hrest'⟩, hclosing, h⟩ := bind_yields.mp h
          obtain ⟨rfl, rfl⟩ := pure_yields.mp h
          obtain ⟨close, rfl, hclose, -⟩ := closing_yields.mp ⟨hrest', hclosing⟩
          exact .group rfl htoken ⟨hmid, he⟩ hclose
      next name =>
        obtain ⟨⟨e', rest', hrest'⟩, he, h⟩ := bind_yields.mp h
        obtain ⟨rfl, rfl⟩ := pure_yields.mp h
        rcases afterName_yields.mp ⟨hrest', he⟩ with
          ⟨deeper, parenthesis, after, args, close, rfl, rfl, hopen, hargs, hclose, rfl⟩ |
            ⟨hstop, more, hmore, rfl⟩
        · exact .call rfl htoken hopen hargs hclose
        · exact .path htoken hstop hmore
      next =>
        split at h
        next value hvalue =>
          obtain ⟨rfl, rfl⟩ := pure_yields.mp h
          rw [literal?_eq_some.mp hvalue] at htoken
          exact .literal htoken
        next => exact absurd h not_throw_yields
  · intro h
    cases h with
    | unary hdeeper hop h =>
      subst hdeeper
      obtain ⟨hrest, he⟩ := h
      refine ⟨_, next_cons hop, ?_⟩
      dsimp only
      rw [unaryOp?_eq_some.mpr rfl]
      exact bind_yields.mpr ⟨_, he, pure_yields.mpr ⟨rfl, rfl⟩⟩
    | @group deeper l close after _ _ hdeeper hopen h hclose =>
      subst hdeeper
      obtain ⟨hmid, he⟩ := h
      obtain ⟨hrest, hclosing⟩ :
          Yields (closing s (close :: rest)) ⟨.symbol .close, close.span⟩ rest :=
        closing_yields.mpr ⟨close, rfl, hclose, rfl⟩
      refine ⟨_, next_cons hopen, bind_yields.mpr ⟨_, he, ?_⟩⟩
      exact bind_yields.mpr ⟨_, hclosing, pure_yields.mpr ⟨rfl, rfl⟩⟩
    | path hname hstop h =>
      obtain ⟨hrest, he⟩ := afterName_yields.mpr (.inr ⟨hstop, _, h, rfl⟩)
      refine ⟨_, next_cons hname, bind_yields.mpr ⟨_, he, ?_⟩⟩
      exact pure_yields.mpr ⟨rfl, rfl⟩
    | call hdeeper hname hopen h hclose =>
      obtain ⟨hrest, he⟩ :=
        afterName_yields.mpr (.inl ⟨_, _, _, _, _, hdeeper, rfl, hopen, h, hclose, rfl⟩)
      refine ⟨_, next_cons hname, bind_yields.mpr ⟨_, he, ?_⟩⟩
      exact pure_yields.mpr ⟨rfl, rfl⟩
    | @literal l _ value h =>
      -- The branches go by tokens, and each kind of literal has its own.
      refine ⟨_, next_cons h, ?_⟩
      cases value
      all_goals exact pure_yields.mpr ⟨rfl, rfl⟩

/-- A parser of operands at some number of levels takes an operand, with the parsers of one level
less for what is nested in it. -/
theorem operand_yields {s : Setting} {levels : Nat} {ls rest : List Lexeme} {e : Syntax} :
    Yields (operand s levels ls) e rest ↔
      TakesOperand s (match levels with
        | 0 => none
        | levels + 1 => some ⟨operand s levels, expressionOf (operand s levels)⟩) ls e rest := by
  cases levels with
  | zero =>
    rw [operand]
    exact operandWith_yields
  | succ levels =>
    rw [operand]
    exact operandWith_yields

/-! ## Sort orders -/

/-- A direction is taken if one is written. -/
theorem direction_yields {ls rest : List Lexeme} {d? : Option (Located Direction)} :
    Yields (direction ls) d? rest ↔
      (∃ l d, ls = l :: rest ∧ l.token? = some (Direction.token d) ∧ d? = some ⟨d, l.span⟩) ∨
        StopsAt (fun t => ∀ d : Direction, t ≠ d.token) ls ∧ d? = none ∧ rest = ls := by
  cases ls with
  | nil =>
    unfold direction
    constructor
    · intro h
      exact .inr ⟨.nil, pure_yields.mp h⟩
    · rintro (⟨l, d, hcons, -⟩ | ⟨-, rfl, rfl⟩)
      · cases hcons
      · exact pure_yields.mpr ⟨rfl, rfl⟩
  | cons l after =>
    unfold direction
    rw [bind_yields]
    constructor
    · rintro ⟨⟨t, span⟩, htoken, h⟩
      obtain ⟨htoken, rfl⟩ := Lexeme.token_eq_ok.mp htoken
      dsimp only at h htoken
      split at h
      next d _ =>
        obtain ⟨rfl, rfl⟩ := pure_yields.mp h
        exact .inl ⟨l, d, rfl, htoken, rfl⟩
      next hno => exact .inr ⟨.cons htoken hno, pure_yields.mp h⟩
    · rintro (⟨_, d, hcons, htoken, rfl⟩ | ⟨hstop, rfl, rfl⟩)
      · cases hcons
        refine ⟨⟨d.token, l.span⟩, Lexeme.token_eq_ok.mpr ⟨htoken, rfl⟩, ?_⟩
        exact pure_yields.mpr ⟨rfl, rfl⟩
      · cases hstop with | @cons _ _ t htoken hno =>
        refine ⟨⟨t, l.span⟩, Lexeme.token_eq_ok.mpr ⟨htoken, rfl⟩, ?_⟩
        dsimp only
        split
        next d => exact absurd rfl (hno d)
        next => exact pure_yields.mpr ⟨rfl, rfl⟩

/-- An item of a sort order is an expression with or without a direction. -/
inductive TakesItem (p : Parser Syntax) : List Lexeme → OrderItem → List Lexeme → Prop
  | plain {ls rest : List Lexeme} {e : Syntax} (h : Yields (p ls) e rest)
      (hstop : StopsAt (fun t => ∀ d : Direction, t ≠ d.token) rest) :
      TakesItem p ls ⟨e, .ascending, e.span⟩ rest
  | directed {ls rest : List Lexeme} {l : Lexeme} {e : Syntax} {d : Direction}
      (h : Yields (p ls) e (l :: rest)) (hd : l.token? = some d.token) :
      TakesItem p ls ⟨e, d, e.span.merge l.span⟩ rest

/-- An item of a sort order is taken in one of these ways. -/
theorem orderItem_yields {p : Parser Syntax} {ls rest : List Lexeme} {item : OrderItem} :
    Yields (orderItem p ls) item rest ↔ TakesItem p ls item rest := by
  unfold orderItem
  rw [bind_yields]
  constructor
  · rintro ⟨⟨e, mid, hmid⟩, he, h⟩
    obtain ⟨⟨d?, rest', hrest'⟩, hdirection, h⟩ := bind_yields.mp h
    obtain ⟨rfl, rfl⟩ := pure_yields.mp h
    rcases direction_yields.mp ⟨hrest', hdirection⟩ with
      ⟨l, d, rfl, hd, rfl⟩ | ⟨hstop, rfl, rfl⟩
    · exact .directed ⟨hmid, he⟩ hd
    · exact .plain ⟨hmid, he⟩ hstop
  · intro h
    cases h with
    | plain he hstop =>
      obtain ⟨hmid, he⟩ := he
      obtain ⟨hrest, hdirection⟩ := direction_yields.mpr (.inr ⟨hstop, rfl, rfl⟩)
      refine ⟨_, he, bind_yields.mpr ⟨_, hdirection, ?_⟩⟩
      exact pure_yields.mpr ⟨rfl, rfl⟩
    | directed he hd =>
      obtain ⟨hmid, he⟩ := he
      obtain ⟨hrest, hdirection⟩ := direction_yields.mpr (.inl ⟨_, _, rfl, hd, rfl⟩)
      refine ⟨_, he, bind_yields.mpr ⟨_, hdirection, ?_⟩⟩
      exact pure_yields.mpr ⟨rfl, rfl⟩

/-- A text is finished when nothing is left. -/
theorem finish_eq_ok {ls : List Lexeme} : finish ls = .ok () ↔ ls = [] := by
  cases ls with
  | nil => exact ⟨fun _ => rfl, fun _ => rfl⟩
  | cons l after =>
    constructor
    · intro h
      obtain ⟨_, -, hthrow⟩ := except_bind_eq_ok.mp h
      cases hthrow
    · intro h
      cases h

end Parser

end EntityQuery
