import EntityQuery.Proofs.ParserSoundness

/-!
# Parsers step by step

A parser returns what is left of the lexemes with a proof that it is shorter, and the next parser is
given that. Without the proof a parser is a step that changes what is left (`Parser.Steps.of`), and
every parser is a sequence of the steps of its parts, in which nothing is taken before it was looked
at. There is an equation for each parser, by which it can be compared with another one that takes
the same steps: `Parser.Steps.of_chainFrom`, `Parser.Steps.of_operandWith` and the others.

One turn of each loop is a definition of its own: an operator with its right operand
(`Parser.Steps.operation`), a slash with a name (`Parser.Steps.segment`), or a comma behind an
argument or an item (`Parser.Steps.listed`).
-/

namespace EntityQuery

namespace Parser

/-- A token that is looked at is that of the first lexeme. -/
theorem exists_cons_of_peek {ls : List Lexeme} {v : Token}
    (h : peek ls = .ok (some v)) :
    ∃ l rest t, ls = l :: rest ∧ l.token = .ok t ∧ t.value = v := by
  cases ls with
  | nil => cases h
  | cons l rest =>
    obtain ⟨t, htoken, hvalue⟩ := except_map_eq_ok.mp h
    exact ⟨l, rest, t, rfl, htoken, Option.some.inj hvalue⟩

/-- Steps of parsing, which change the lexemes that are left. -/
abbrev Steps (α : Type) := StateT (List Lexeme) (Except ParseError) α

namespace Steps

/-! ## Parsers as steps -/

section

variable {α β : Type} {P Q : List Lexeme → Prop} {p : Steps α} {f : α → Steps β}
  {ls rest : List Lexeme} {a : α} {e : ParseError} {l : Lexeme} {t : Located Token}

/-- What a run returns and what it leaves, without the proof. -/
def result (x : Except ParseError (α × {rest : List Lexeme // P rest})) :
    Except ParseError (α × List Lexeme) :=
  x.map fun (a, rest) => (a, rest.1)

/-- A parser as a step. -/
def of {P : List Lexeme → List Lexeme → Prop}
    (p : (ls : List Lexeme) → Except ParseError (α × {rest : List Lexeme // P ls rest})) :
    Steps α :=
  fun ls => result (p ls)

/-- The next token, if there is one, without taking it. -/
def look : Steps (Option Token) := fun ls => (peek ls).map (·, ls)

/-- Takes the next token, if there is one. -/
def take : Steps (Option (Located Token))
  | [] => .ok (none, [])
  | l :: rest => l.token.map fun t => (some t, rest)

/-- Steps go on from what the first of them returns. -/
theorem bind_of_ok (h : p ls = .ok (a, rest)) : (p >>= f) ls = f a rest := by
  show (p ls >>= _) = _
  rw [h]
  rfl

/-- Steps end with the error of the first of them. -/
theorem bind_of_error (h : p ls = .error e) : (p >>= f) ls = .error e := by
  show (p ls >>= _) = _
  rw [h]
  rfl

/-- A part of a run is a step, and what the run does with its result are the steps after it. -/
theorem result_bind {x : Except ParseError (α × {rest : List Lexeme // P rest})}
    {g : α × {rest : List Lexeme // P rest} →
      Except ParseError (β × {rest : List Lexeme // Q rest})}
    (hp : p ls = result x) (h : ∀ a rest, result (g (a, rest)) = f a rest.1) :
    result (x >>= g) = (p >>= f) ls := by
  cases x with
  | error e => exact (bind_of_error hp).symm
  | ok found => exact (h found.1 found.2).trans (bind_of_ok hp).symm

/-- The last part of a run is the last step. -/
theorem result_last {x : Except ParseError (α × {rest : List Lexeme // P rest})}
    {g : α × {rest : List Lexeme // P rest} →
      Except ParseError (α × {rest : List Lexeme // Q rest})}
    (hp : p ls = result x) (h : ∀ a rest, result (g (a, rest)) = .ok (a, rest.1)) :
    result (x >>= g) = p ls := by
  rw [← bind_pure p]
  exact result_bind hp h

/-- A run that looks at the next token first looks at it as a step. -/
theorem result_peek {g : Option Token → Except ParseError (β × {rest : List Lexeme // Q rest})}
    {f : Option Token → Steps β} (h : ∀ t?, peek ls = .ok t? → result (g t?) = f t? ls) :
    result (peek ls >>= g) = (look >>= f) ls := by
  have hlook : look ls = (peek ls).map (·, ls) := rfl
  cases hpeek : peek ls with
  | error e =>
    rw [hpeek] at hlook
    exact (bind_of_error hlook).symm
  | ok t? =>
    rw [hpeek] at hlook
    exact (h t? hpeek).trans (bind_of_ok hlook).symm

/-- A run that decides by the first token looks at it as a step. -/
theorem result_token {g : Located Token → Except ParseError (β × {rest : List Lexeme // Q rest})}
    {f : Option Token → Steps β}
    (h : ∀ t, l.token = .ok t → result (g t) = f (some t.value) (l :: rest)) :
    result (l.token >>= g) = (look >>= f) (l :: rest) := by
  have hlook : look (l :: rest) = (l.token.map fun t => some t.value).map (·, l :: rest) := rfl
  cases htoken : l.token with
  | error e =>
    rw [htoken] at hlook
    exact (bind_of_error hlook).symm
  | ok t =>
    rw [htoken] at hlook
    exact (h t htoken).trans (bind_of_ok hlook).symm

end

/-! ## Single tokens -/

section

variable (s : Setting)

/-- The next token is the first one that is left. -/
theorem of_next_cons {l : Lexeme} {rest : List Lexeme} {t : Located Token} (h : l.token = .ok t) :
    of (next s) (l :: rest) = .ok (t, rest) := by
  show result (l.token.map _) = _
  rw [h]
  rfl

/-- The next token is taken, and it is an error if there is none. -/
theorem of_next : of (next s) = (do
    match ← take with
    | some t => return t
    | none => throw s.endError) := by
  funext ls
  cases ls with
  | nil => rfl
  | cons l rest =>
    show result (l.token.map _) = (l.token.map _ >>= _)
    cases l.token with
    | error e => rfl
    | ok t => rfl

/-- The closing parenthesis is the next token. -/
theorem of_closing : of (closing s) = (do
    let t ← of (next s)
    if t.value = .symbol .close then return t
    else throw ⟨.notClosed t.value, t.span⟩) := by
  funext ls
  refine result_bind rfl fun t rest => ?_
  dsimp only
  split <;> rfl

/-- A name is the next token. -/
theorem of_name : of (name s) = (do
    let t ← of (next s)
    match t.value with
    | .ident name => return ⟨name, t.span⟩
    | found => throw ⟨.notAProperty found, t.span⟩) := by
  funext ls
  refine result_bind rfl fun t rest => ?_
  obtain ⟨value, span⟩ := t
  cases value <;> rfl

end

/-! ## Operators between operands -/

section

variable (s : Setting) (op? : Token → Option BinaryOp)

/-- Takes an operator of a level and its right operand, if such an operator is next. -/
def operation (operand : Steps Syntax) (left : Syntax) : Steps (Option Syntax) := do
  match (← look).bind op? with
  | none => return none
  | some op =>
    let _ ← of (next s)
    let right ← operand
    return some (left.join op right)

/-- From a left operand on, operators and right operands are taken until there is none. -/
theorem of_chainFrom (operand : Parser Syntax) (left : Syntax) :
    of (chainFrom operand op? left) = (do
      match ← operation s op? (of operand) left with
      | some left => of (chainFrom operand op? left)
      | none => return left) := by
  funext ls
  show result (chainFrom operand op? left ls) = _
  unfold operation
  rw [bind_assoc]
  cases ls with
  | nil =>
    rw [chainFrom]
    rfl
  | cons l after =>
    rw [chainFrom]
    refine result_token fun t ht => ?_
    -- The token that was looked at is the one that is taken.
    have hop : (some t.value).bind op? = op? t.value := rfl
    rw [hop]
    cases op? t.value with
    | none => rfl
    | some op =>
      simp only [bind_assoc, pure_bind]
      rw [bind_of_ok (of_next_cons s ht)]
      refine result_bind rfl fun right rest => ?_
      exact result_last rfl fun e rest' => rfl

/-- A chain is an operand and what is taken from there on. -/
theorem of_chain (operand : Parser Syntax) :
    of (chain op? operand) = (do
      let left ← of operand
      of (chainFrom operand op? left)) := by
  funext ls
  refine result_bind rfl fun left rest => ?_
  exact result_last rfl fun e rest' => rfl

end

/-! ## Lists -/

section

variable {α : Type} (s : Setting)

/-- Takes a comma, if it is next. -/
def comma : Steps Bool := do
  if (← look) = some (.symbol .comma) then
    let _ ← of (next s)
    return true
  else return false

/-- Takes a value, and a comma behind it if there is one. -/
def listed (p : Steps α) : Steps (α × Bool) := do
  let a ← p
  return (a, ← comma s)

/-- A list is a value, and more of them if a comma follows. -/
theorem of_oneOrMore (p : Parser α) (list : Parser (List α)) :
    of (oneOrMore p list) = (do
      let (a, more) ← listed s (of p)
      if more then return a :: (← of list) else return [a]) := by
  funext ls
  unfold listed
  simp only [bind_assoc, pure_bind]
  refine result_bind rfl fun a rest => ?_
  obtain ⟨rest, hrest⟩ := rest
  unfold comma
  rw [bind_assoc]
  cases rest with
  | nil => rfl
  | cons l after =>
    refine result_token fun t ht => ?_
    by_cases hcomma : t.value = .symbol .comma
    · rw [if_pos hcomma, if_pos (congrArg some hcomma)]
      simp only [bind_assoc, pure_bind]
      rw [bind_of_ok (of_next_cons s ht)]
      exact result_bind rfl fun as rest' => rfl
    · rw [if_neg hcomma, if_neg fun heq => hcomma (Option.some.inj heq)]
      rfl

/-- Takes a slash and the name behind it, if a slash is next. -/
def segment : Steps (Option (Located String)) := do
  if (← look) = some (.symbol .slash) then
    let _ ← of (next s)
    let segment ← of (name s)
    return some segment
  else return none

/-- Segments of a path are taken while slashes follow. -/
theorem of_segments : of (segments s) = (do
    match ← segment s with
    | some segment => return segment :: (← of (segments s))
    | none => return []) := by
  funext ls
  show result (segments s ls) = _
  unfold segment
  rw [bind_assoc]
  cases ls with
  | nil =>
    rw [segments]
    rfl
  | cons l after =>
    rw [segments]
    refine result_token fun t ht => ?_
    by_cases hslash : t.value = .symbol .slash
    · rw [if_pos hslash, if_pos (congrArg some hslash)]
      simp only [bind_assoc, pure_bind]
      rw [bind_of_ok (of_next_cons s ht)]
      refine result_bind rfl fun name rest => ?_
      exact result_bind rfl fun more rest' => rfl
    · rw [if_neg hslash, if_neg fun heq => hslash (Option.some.inj heq)]
      rfl

end

/-! ## Operands -/

section

variable {α : Type} (s : Setting) (deeper? : Option Deeper)

/-- Goes one level deeper, unless expressions may not be nested any deeper. -/
def nested (span : Span) (steps : Deeper → Steps α) : Steps α :=
  match deeper? with
  | none => throw (s.depthError span)
  | some deeper => steps deeper

/-- Between the parentheses of a call there is nothing before the closing one, or a list. -/
theorem of_callArguments (p : Parser Syntax) : of (callArguments p) = (do
    if (← look) = some (.symbol .close) then return [] else of (arguments p)) := by
  funext ls
  refine result_peek fun t? _ => ?_
  by_cases hclose : t? = some (.symbol .close)
  · rw [if_pos hclose, if_pos hclose]
    rfl
  · rw [if_neg hclose, if_neg hclose]
    exact result_last rfl fun args rest => rfl

/-- After a name, an opening parenthesis makes it a call, and else it begins a path. -/
theorem of_afterName (first : Located String) :
    of (afterName s deeper? first) = (do
      if (← look) = some (.symbol .open) then
        let _ ← of (next s)
        let args ← nested s deeper? first.span fun deeper => of (callArguments deeper.expression)
        let close ← of (closing s)
        return .call first args (first.span.merge close.span)
      else
        let more ← of (segments s)
        let span := more.foldl (fun span segment => span.merge segment.span) first.span
        return .path (first.value :: more.map (·.value)) span) := by
  funext ls
  refine result_peek fun t? hpeek => ?_
  by_cases hopen : t? = some (.symbol .open)
  · rw [if_pos hopen, if_pos hopen]
    obtain ⟨l, rest, t, rfl, htoken, -⟩ := exists_cons_of_peek (hopen ▸ hpeek)
    rw [bind_of_ok (of_next_cons s htoken)]
    cases deeper? with
    | none => rfl
    | some deeper =>
      refine result_bind rfl fun args rest' => ?_
      exact result_bind rfl fun close rest'' => rfl
  · rw [if_neg hopen, if_neg hopen]
    exact result_bind rfl fun more rest => rfl

/-- Takes an operand that begins with no prefix operator. -/
def primary : Steps Syntax := do
  let t ← of (next s)
  match t.value with
  | .symbol .open =>
    let e ← nested s deeper? t.span fun deeper => of deeper.expression
    let _ ← of (closing s)
    return e
  | .ident name => of (afterName s deeper? ⟨name, t.span⟩)
  | found =>
    match literal? found with
    | some value => return .literal value t.span
    | none => throw ⟨.notAnExpression found, t.span⟩

/-- An operand is a prefix operator with an operand, or it begins with no prefix operator. -/
theorem of_operandWith : of (operandWith s deeper?) = (do
    match (← look).bind unaryOp? with
    | some op =>
      let t ← of (next s)
      let e ← nested s deeper? t.span fun deeper => of deeper.operand
      return .unary op e (t.span.merge e.span)
    | none => primary s deeper?) := by
  funext ls
  cases ls with
  | nil => rfl
  | cons l after =>
    have hlook : look (l :: after) = (l.token.map fun t => some t.value).map (·, l :: after) := rfl
    show result (l.token.map _ >>= _) = _
    cases htoken : l.token with
    | error e =>
      rw [htoken] at hlook
      exact (bind_of_error hlook).symm
    | ok t =>
      rw [htoken] at hlook
      -- The parser decides by this token once; the steps look at it for a sign, and then take it.
      have hop : (some t.value).bind unaryOp? = unaryOp? t.value := rfl
      rw [bind_of_ok hlook, hop]
      show result (match unaryOp? t.value with | some op => _ | none => _) = _
      obtain ⟨value, span⟩ := t
      cases unaryOp? value with
      | some op =>
        dsimp only
        rw [bind_of_ok (of_next_cons s htoken)]
        cases deeper? with
        | none => rfl
        | some deeper => exact result_bind rfl fun e rest => rfl
      | none =>
        unfold primary
        dsimp only
        rw [bind_of_ok (of_next_cons s htoken)]
        cases value with
        | symbol symbol =>
          cases symbol with
          | «open» =>
            cases deeper? with
            | none => rfl
            | some deeper =>
              refine result_bind rfl fun e rest => ?_
              exact result_bind rfl fun close rest' => rfl
          | _ => rfl
        | ident name => exact result_last rfl fun e rest => rfl
        | keyword k => cases k <;> rfl
        | _ => rfl

end

/-! ## Sort orders -/

/-- A direction is taken if it is next. -/
theorem of_direction (s : Setting) : of direction = (do
    match ← look with
    | some (.keyword (.direction d)) =>
      let t ← of (next s)
      return some ⟨d, t.span⟩
    | _ => return none) := by
  funext ls
  cases ls with
  | nil => rfl
  | cons l after =>
    refine result_token fun t ht => ?_
    obtain ⟨value, span⟩ := t
    cases value with
    | keyword k =>
      cases k with
      | direction d =>
        dsimp only
        rw [bind_of_ok (of_next_cons s ht)]
        rfl
      | _ => rfl
    | _ => rfl

/-- An item of a sort order is an expression, with a direction if one is written. -/
theorem of_orderItem (p : Parser Syntax) : of (orderItem p) = (do
    let e ← of p
    match ← of direction with
    | some d => return ⟨e, d.value, e.span.merge d.span⟩
    | none => return ⟨e, .ascending, e.span⟩) := by
  funext ls
  refine result_bind rfl fun e rest => ?_
  refine result_bind rfl fun d? rest' => ?_
  cases d? <;> rfl

/-- Refuses what follows a complete text. -/
def finish : Steps Unit := do
  match ← take with
  | none => return ()
  | some t => throw ⟨.trailing t.value, t.span⟩

/-- At the end of a text nothing is left. -/
theorem eq_nil_of_finish {ls rest : List Lexeme} (h : finish ls = .ok ((), rest)) : rest = [] := by
  cases ls with
  | nil =>
    cases h
    rfl
  | cons l after =>
    obtain ⟨⟨t?, mid⟩, htake, h⟩ := except_bind_eq_ok.mp h
    obtain ⟨t, -, heq⟩ := except_map_eq_ok.mp htake
    cases heq
    cases h

/-- What is parsed as a whole text is returned when nothing is left. -/
theorem finish_bind {α : Type} {P : List Lexeme → Prop} {p : Steps α} {ls : List Lexeme}
    {x : Except ParseError (α × {rest : List Lexeme // P rest})} (hp : p ls = result x) :
    (p >>= fun a => finish >>= fun _ => pure a) ls =
      (x >>= fun (a, rest) => Parser.finish rest.1 >>= fun _ => pure a).map (·, []) := by
  cases x with
  | error e => exact bind_of_error hp
  | ok found =>
    obtain ⟨a, rest, hrest⟩ := found
    rw [bind_of_ok hp]
    cases rest with
    | nil => rfl
    | cons l rest =>
      show ((l.token.map _ >>= _) >>= _ : Except ParseError _) = ((l.token >>= _) >>= _).map _
      cases l.token with
      | error e => rfl
      | ok t => rfl

/-! ## What steps take -/

section

variable {α β : Type} {p : Steps α} {f : α → Steps β} {ls rest : List Lexeme} {b : β}

/-- Steps return what the last of them returns, from what the first of them leaves. -/
theorem bind_eq_ok :
    (p >>= f) ls = .ok (b, rest) ↔
      ∃ a mid, p ls = .ok (a, mid) ∧ f a mid = .ok (b, rest) := by
  constructor
  · intro h
    obtain ⟨⟨a, mid⟩, ha, h⟩ := except_bind_eq_ok.mp h
    exact ⟨a, mid, ha, h⟩
  · rintro ⟨a, mid, ha, h⟩
    exact except_bind_eq_ok.mpr ⟨(a, mid), ha, h⟩

/-- A step that returns takes nothing. -/
theorem pure_eq_ok {a b : α} :
    (pure a : Steps α) ls = .ok (b, rest) ↔ b = a ∧ rest = ls := by
  constructor
  · intro h
    cases h
    exact ⟨rfl, rfl⟩
  · rintro ⟨rfl, rfl⟩
    rfl

/-- Looking at the next token takes nothing, and leaves all of it to the steps behind. -/
theorem of_look_bind {f : Option Token → Steps β} (h : (look >>= f) ls = .ok (b, rest)) :
    ∃ t?, f t? ls = .ok (b, rest) := by
  obtain ⟨t?, mid, hlook, hf⟩ := bind_eq_ok.mp h
  obtain ⟨_, -, heq⟩ := except_map_eq_ok.mp hlook
  cases heq
  exact ⟨t?, hf⟩

/-- A step takes what the parser does. -/
theorem of_eq_ok_iff {P : List Lexeme → List Lexeme → Prop}
    {p : (ls : List Lexeme) → Except ParseError (α × {rest : List Lexeme // P ls rest})} {a : α} :
    of p ls = .ok (a, rest) ↔ Yields (p ls) a rest := by
  constructor
  · intro h
    obtain ⟨⟨_, rest', hrest'⟩, hp, heq⟩ := except_map_eq_ok.mp h
    cases heq
    exact ⟨hrest', hp⟩
  · rintro ⟨hrest, hp⟩
    exact except_map_eq_ok.mpr ⟨_, hp, rfl⟩

/-- What a parser leaves is related to what it is given as the parser says. -/
theorem prop_of_eq_ok {P : List Lexeme → List Lexeme → Prop}
    {p : (ls : List Lexeme) → Except ParseError (α × {rest : List Lexeme // P ls rest})} {a : α}
    (h : of p ls = .ok (a, rest)) : P ls rest :=
  (of_eq_ok_iff.mp h).1

variable {s : Setting} {op? : Token → Option BinaryOp} {operand : Parser Syntax}

/-- An operator and its right operand are taken when an operation is made. -/
theorem length_lt_of_operation {left e : Syntax}
    (h : operation s op? (of operand) left ls = .ok (some e, rest)) : rest.length < ls.length := by
  unfold operation at h
  obtain ⟨t?, h⟩ := of_look_bind h
  cases hop : t?.bind op? with
  | none =>
    rw [hop] at h
    cases h
  | some op =>
    rw [hop] at h
    obtain ⟨t, after, hnext, h⟩ := bind_eq_ok.mp h
    obtain ⟨right, rest', hright, h⟩ := bind_eq_ok.mp h
    obtain ⟨-, rfl⟩ := pure_eq_ok.mp h
    have hafter : after.length < ls.length := prop_of_eq_ok hnext
    have hrest : rest.length < after.length := prop_of_eq_ok hright
    exact Nat.lt_trans hrest hafter

/-- A slash and a name are taken when there is a segment. -/
theorem length_lt_of_segment {name : Located String}
    (h : segment s ls = .ok (some name, rest)) : rest.length < ls.length := by
  unfold segment at h
  obtain ⟨t?, h⟩ := of_look_bind h
  split at h
  next =>
    obtain ⟨t, after, hnext, h⟩ := bind_eq_ok.mp h
    obtain ⟨name', rest', hname, h⟩ := bind_eq_ok.mp h
    obtain ⟨-, rfl⟩ := pure_eq_ok.mp h
    have hafter : after.length < ls.length := prop_of_eq_ok hnext
    have hrest : rest.length < after.length := prop_of_eq_ok hname
    exact Nat.lt_trans hrest hafter
  next => cases h

/-- A comma may be taken. -/
theorem length_le_of_comma {more : Bool} (h : comma s ls = .ok (more, rest)) :
    rest.length ≤ ls.length := by
  unfold comma at h
  obtain ⟨t?, h⟩ := of_look_bind h
  split at h
  next =>
    obtain ⟨t, after, hnext, h⟩ := bind_eq_ok.mp h
    obtain ⟨-, rfl⟩ := pure_eq_ok.mp h
    have hafter : rest.length < ls.length := prop_of_eq_ok hnext
    exact Nat.le_of_lt hafter
  next =>
    obtain ⟨-, rfl⟩ := pure_eq_ok.mp h
    exact Nat.le_refl _

/-- A value takes some tokens, with a comma behind it or without. -/
theorem length_lt_of_listed {p : Parser α} {found : α × Bool}
    (h : listed s (of p) ls = .ok (found, rest)) : rest.length < ls.length := by
  obtain ⟨a, mid, ha, h⟩ := bind_eq_ok.mp h
  obtain ⟨more, rest', hcomma, h⟩ := bind_eq_ok.mp h
  obtain ⟨-, rfl⟩ := pure_eq_ok.mp h
  have hmid : mid.length < ls.length := prop_of_eq_ok ha
  exact Nat.lt_of_le_of_lt (length_le_of_comma hcomma) hmid

/-- What is nested is taken by the parsers of the next level down. -/
theorem nested_eq_ok {deeper? : Option Deeper} {span : Span} {steps : Deeper → Steps α} {a : α}
    (h : nested s deeper? span steps ls = .ok (a, rest)) :
    ∃ deeper, steps deeper ls = .ok (a, rest) := by
  cases deeper? with
  | none => cases h
  | some deeper => exact ⟨deeper, h⟩

/-- An operand takes some tokens. -/
theorem length_lt_of_primary {deeper? : Option Deeper} {e : Syntax}
    (h : primary s deeper? ls = .ok (e, rest)) : rest.length < ls.length := by
  unfold primary at h
  obtain ⟨t, after, hnext, h⟩ := bind_eq_ok.mp h
  have hafter : after.length < ls.length := prop_of_eq_ok hnext
  obtain ⟨value, span⟩ := t
  dsimp only at h
  split at h
  next =>
    obtain ⟨e', mid, he, h⟩ := bind_eq_ok.mp h
    obtain ⟨close, rest', hclose, h⟩ := bind_eq_ok.mp h
    obtain ⟨-, rfl⟩ := pure_eq_ok.mp h
    obtain ⟨deeper, he⟩ := nested_eq_ok he
    have hmid : mid.length < after.length := prop_of_eq_ok he
    have hrest : rest.length < mid.length := prop_of_eq_ok hclose
    omega
  next =>
    have hrest : rest.length ≤ after.length := prop_of_eq_ok h
    omega
  next =>
    cases hliteral : literal? value with
    | some found =>
      rw [hliteral] at h
      obtain ⟨-, rfl⟩ := pure_eq_ok.mp h
      exact hafter
    | none =>
      rw [hliteral] at h
      cases h

end

end Steps

end Parser

end EntityQuery
