import EntityQuery.Proofs.Lookaheads
import EntityQuery.Proofs.ParserSteps

/-!
# Descent through the grammar

A parser may keep its place in a lexer with lookahead, count how deep it is nested, and call itself
for every part of an expression, with a loop for each kind of list. Nothing says that
`Parser.Setting.parse` and the functions around it end: a run that goes on forever has no result
(`Descent.Run`). A token is taken by `Descent.take` alone, which notes it down.

`Descent.Follows` says that a run takes the tokens of a step of parsing and ends like it, and
`Descent.Simulates` that it does so from every state at a depth. What is put together from such
parts does (`Descent.Simulates.bind`), what is nested does one level deeper
(`Descent.Simulates.nested_bind`), and a loop does when every turn leaves fewer lexemes
(`Descent.Simulates.of_shorter`).
-/

namespace EntityQuery

/-- The state of a parser that descends through the grammar. -/
structure Descent where
  /-- The lexer of the text. -/
  lexer : Lookahead
  /-- How deep the expression is nested that is being parsed. -/
  depth : Nat
  /-- The tokens that were taken so far. -/
  taken : List (Located Token)

namespace Descent

/-- The state at the start of a text. -/
def ofSource (source : String) : Descent := ⟨.ofSource source, 0, []⟩

/-- A parser with a state. It has no result when it goes on forever. -/
abbrev Run (α : Type) := ExceptT ParseError (StateT Descent Option) α

/-- The next token, if there is one, without taking it. -/
def peek : Run (Option Token) := fun d =>
  let (item?, lexer) := d.lexer.peek
  some (item?.elim (.ok none) fun item => item.map fun t => some t.value, { d with lexer })

/-- Takes the next token, if there is one. -/
def take : Run (Option (Located Token)) := fun d =>
  let (item?, lexer) := d.lexer.next
  -- A mistake is taken from the lexer too, but it is no token.
  match item? with
  | none => some (.ok none, { d with lexer })
  | some (.error e) => some (.error e, { d with lexer })
  | some (.ok t) => some (.ok (some t), { d with lexer, taken := d.taken ++ [t] })

/-- Goes back up by one level. -/
def leave : Run Unit := modify fun d => { d with depth := d.depth - 1 }

end Descent

/-! ## Parsing with a state -/

namespace Parser.Setting

open Descent (Run)

/-- Takes the next token. -/
def next (s : Setting) : Run (Located Token) := do
  match ← Descent.take with
  | some t => return t
  | none => throw s.endError

/-- Takes the closing parenthesis. -/
def closing (s : Setting) : Run (Located Token) := do
  let t ← s.next
  if t.value = .symbol .close then return t
  else throw ⟨.notClosed t.value, t.span⟩

/-- Takes the name of a property. -/
def name (s : Setting) : Run (Located String) := do
  let t ← s.next
  match t.value with
  | .ident name => return ⟨name, t.span⟩
  | found => throw ⟨.notAProperty found, t.span⟩

/-- Takes a comma, if it is next. -/
def comma (s : Setting) : Run Bool := do
  if (← Descent.peek) = some (.symbol .comma) then
    let _ ← s.next
    return true
  else return false

/-- Goes down by one level, to what the token at a span opens. -/
def enter (s : Setting) (span : Span) : Run Unit := do
  modify fun d => { d with depth := d.depth + 1 }
  if (← get).depth > s.limit then throw (s.depthError span)

/-- Takes a slash and the name behind it, if a slash is next. -/
def segment (s : Setting) : Run (Option (Located String)) := do
  if (← Descent.peek) = some (.symbol .slash) then
    let _ ← s.next
    let segment ← s.name
    return some segment
  else return none

/-- Takes the segments of a path after the first one. -/
def segments (s : Setting) : Run (List (Located String)) := do
  match ← s.segment with
  | some segment => return segment :: (← s |>.segments)
  | none => return []
partial_fixpoint

mutual

/-- Takes what a category of the grammar stands for. -/
def parse (s : Setting) : Category → Run Syntax
  | .operations level => do
    let left ← s |>.parse level.operands
    s |>.operators level left
  | .prefixed => do
    match (← Descent.peek).bind unaryOp? with
    | some op =>
      let t ← s.next
      s.enter t.span
      let e ← s |>.parse .prefixed
      Descent.leave
      return .unary op e (t.span.merge e.span)
    | none => s |>.parse .primary
  | .primary => do
    let t ← s.next
    match t.value with
    | .symbol .open =>
      s.enter t.span
      let e ← s |>.parse .expression
      Descent.leave
      let _ ← s.closing
      return e
    | .ident name => s |>.afterName ⟨name, t.span⟩
    | found =>
      match literal? found with
      | some value => return .literal value t.span
      | none => throw ⟨.notAnExpression found, t.span⟩
partial_fixpoint

/-- Goes on from a left operand with operators of one level and their right operands. -/
def operators (s : Setting) (level : Level) (left : Syntax) : Run Syntax := do
  match ← s |>.operator level left with
  | some left => s |>.operators level left
  | none => return left
partial_fixpoint

/-- Takes an operator of a level and its right operand, if such an operator is next. -/
def operator (s : Setting) (level : Level) (left : Syntax) : Run (Option Syntax) := do
  match (← Descent.peek).bind level.op? with
  | none => return none
  | some op =>
    let _ ← s.next
    let right ← s |>.parse level.operands
    return some (left.join op right)
partial_fixpoint

/-- Takes what follows a name: the arguments of a call, or the further segments of a path. -/
def afterName (s : Setting) (first : Located String) : Run Syntax := do
  if (← Descent.peek) = some (.symbol .open) then
    let _ ← s.next
    s.enter first.span
    let args ← s |>.callArguments
    Descent.leave
    let close ← s.closing
    return .call first args (first.span.merge close.span)
  else
    let more ← s.segments
    let span := more.foldl (fun span segment => span.merge segment.span) first.span
    return .path (first.value :: more.map (·.value)) span
partial_fixpoint

/-- Takes what stands between the parentheses of a call. -/
def callArguments (s : Setting) : Run (List Syntax) := do
  if (← Descent.peek) = some (.symbol .close) then return [] else s |>.arguments
partial_fixpoint

/-- Takes expressions with commas between them. -/
def arguments (s : Setting) : Run (List Syntax) := do
  let (e, more) ← s |>.argument
  if more then return e :: (← s |>.arguments) else return [e]
partial_fixpoint

/-- Takes an expression, and a comma behind it if there is one. -/
def argument (s : Setting) : Run (Syntax × Bool) := do
  let e ← s |>.parse .expression
  return (e, ← s.comma)
partial_fixpoint

end

/-- Takes the direction of an item of a sort order, if one is written. -/
def direction (s : Setting) : Run (Option (Located Direction)) := do
  match ← Descent.peek with
  | some (.keyword (.direction d)) =>
    let t ← s.next
    return some ⟨d, t.span⟩
  | _ => return none

/-- Takes an item of a sort order, and a comma behind it if there is one. -/
def item (s : Setting) : Run (OrderItem × Bool) := do
  let e ← s.parse .expression
  let item : OrderItem :=
    match ← s.direction with
    | some d => ⟨e, d.value, e.span.merge d.span⟩
    | none => ⟨e, .ascending, e.span⟩
  return (item, ← s.comma)

/-- Takes items of a sort order with commas between them. -/
def items (s : Setting) : Run (List OrderItem) := do
  let (item, more) ← s.item
  if more then return item :: (← s |>.items) else return [item]
partial_fixpoint

/-- Refuses what follows a complete text. -/
def finish : Run Unit := do
  match ← Descent.take with
  | none => return ()
  | some t => throw ⟨.trailing t.value, t.span⟩

/-- Takes a whole filter. -/
def parseFilter (s : Setting) : Run Syntax := do
  let e ← s.parse .expression
  finish
  return e

/-- Takes a whole sort order. -/
def parseList (s : Setting) : Run (List OrderItem) := do
  let items ← s.items
  finish
  return items

end Parser.Setting

/-! ## Following the steps of a parser -/

namespace Descent

/-- The lexemes that are still to come. -/
def Awaits (d : Descent) (ls : List Lexeme) : Prop := d.lexer.Awaits (ls.map Lexeme.token)

/-- From a state on, a run does what a step does to the lexemes that are still to come: it ends,
with the same result or the same error. The tokens that it takes are the first ones of the lexemes.
After a result the depth is what it was, and what the step leaves is still to come. -/
inductive Follows {α : Type} (m : Run α) (d : Descent) (ls : List Lexeme) :
    Except ParseError (α × List Lexeme) → Prop
  | ok {a : α} {rest : List Lexeme} {d' : Descent} {tokens : List (Located Token)}
      (hrun : m d = some (.ok a, d')) (hdepth : d'.depth = d.depth)
      (htaken : d'.taken = d.taken ++ tokens)
      (htokens : ls.map Lexeme.token = tokens.map .ok ++ rest.map Lexeme.token)
      (hawaits : d'.Awaits rest) : Follows m d ls (.ok (a, rest))
  | error {e : ParseError} {d' : Descent} {tokens : List (Located Token)}
      (hrun : m d = some (.error e, d')) (htaken : d'.taken = d.taken ++ tokens)
      (htokens : tokens.map .ok <+: ls.map Lexeme.token) : Follows m d ls (.error e)

section

variable {α β : Type} {m : Run α} {f : α → Run β} {d d' : Descent} {ls rest : List Lexeme} {a : α}
  {e : ParseError}

/-- A run goes on from the result of its first part. -/
theorem bind_of_ok (h : m d = some (.ok a, d')) : (m >>= f) d = f a d' := by
  show (m d).bind _ = _
  rw [h]
  rfl

/-- A run ends with the error of its first part. -/
theorem bind_of_error (h : m d = some (.error e, d')) :
    (m >>= f) d = some (.error e, d') := by
  show (m d).bind _ = _
  rw [h]
  rfl

/-- Going down counts one level more, and is an error when those are more than there may be. -/
theorem enter_eq (s : Parser.Setting) (span : Span) (d : Descent) :
    s.enter span d =
      if d.depth + 1 > s.limit then
        some (.error (s.depthError span), { d with depth := d.depth + 1 })
      else some (.ok (), { d with depth := d.depth + 1 }) := by
  -- The depth is compared after it was counted up.
  show (if d.depth + 1 > s.limit then throw (s.depthError span) else pure () : Run Unit)
    { d with depth := d.depth + 1 } = _
  split <;> rfl

/-- A run follows a step from an earlier state if it comes to a later one and follows it there. -/
theorem Follows.after {n : Run β} {x : Except ParseError (β × List Lexeme)}
    {tokens : List (Located Token)} (h : Follows n d' rest x) {m : Run β} (hrun : m d = n d')
    (hdepth : d'.depth = d.depth) (htaken : d'.taken = d.taken ++ tokens)
    (htokens : ls.map Lexeme.token = tokens.map .ok ++ rest.map Lexeme.token) :
    Follows m d ls x := by
  cases h with
  | @ok a rest' last more hn hdepth' htaken' hmore hawaits =>
    have hall : last.taken = d.taken ++ (tokens ++ more) := by
      rw [htaken', htaken, List.append_assoc]
    have hboth : ls.map Lexeme.token =
        (tokens ++ more).map .ok ++ rest'.map Lexeme.token := by
      rw [htokens, hmore, List.map_append, List.append_assoc]
    exact .ok (hrun.trans hn) (hdepth'.trans hdepth) hall hboth hawaits
  | @error e last more hn htaken' hmore =>
    have hall : last.taken = d.taken ++ (tokens ++ more) := by
      rw [htaken', htaken, List.append_assoc]
    have hboth : (tokens ++ more).map .ok <+: ls.map Lexeme.token := by
      rw [htokens, List.map_append]
      exact (List.prefix_append_right_inj _).mpr hmore
    exact .error (hrun.trans hn) hall hboth

/-- Parts that follow the parts of a step follow it together. -/
theorem Follows.bind {p : Parser.Steps α} {g : α → Parser.Steps β} (h : Follows m d ls (p ls))
    (hf : ∀ a rest d', p ls = .ok (a, rest) → d'.depth = d.depth → d'.Awaits rest →
      Follows (f a) d' rest (g a rest)) :
    Follows (m >>= f) d ls ((p >>= g) ls) := by
  generalize hx : p ls = x at h
  cases h with
  | ok hrun hdepth htaken htokens hawaits =>
    rw [Parser.Steps.bind_of_ok hx]
    exact (hf _ _ _ hx hdepth hawaits).after (bind_of_ok hrun) hdepth htaken htokens
  | error hrun htaken htokens =>
    rw [Parser.Steps.bind_of_error hx]
    exact .error (bind_of_error hrun) htaken htokens

/-- A run that follows a step has the result of the step. -/
theorem Follows.result {x : Except ParseError (α × List Lexeme)} (h : Follows m d ls x) :
    (m d).map Prod.fst = some (x.map Prod.fst) := by
  cases h with
  | ok hrun =>
    rw [hrun]
    rfl
  | error hrun =>
    rw [hrun]
    rfl

/-- At a depth, a run follows a step from every state. -/
def Simulates (k : Nat) (m : Run α) (p : Parser.Steps α) : Prop :=
  ∀ d ls, d.depth = k → d.Awaits ls → Follows m d ls (p ls)

namespace Simulates

variable {k : Nat} {p : Parser.Steps α} {g : α → Parser.Steps β}

/-- A run that returns follows a step that does. -/
theorem pure (a : α) : Simulates k (pure a) (Pure.pure a) :=
  fun _ _ _ hawaits => .ok rfl rfl (List.append_nil _).symm rfl hawaits

/-- A run that throws follows a step that does. -/
theorem throw (e : ParseError) : Simulates k (throw e : Run α) (MonadExcept.throw e) :=
  fun _ _ _ _ => .error rfl (List.append_nil _).symm List.nil_prefix

/-- Parts that follow the parts of a step follow it together. -/
theorem bind (h : Simulates k m p) (hf : ∀ a, Simulates k (f a) (g a)) :
    Simulates k (m >>= f) (p >>= g) :=
  fun d ls hdepth hawaits => (h d ls hdepth hawaits).bind fun a rest d' _ hdepth' hawaits' =>
    hf a d' rest (hdepth'.trans hdepth) hawaits'

/-- A choice is followed when both branches are. -/
theorem ite {c : Prop} [Decidable c] {m' : Run α} {p' : Parser.Steps α} (h : Simulates k m p)
    (h' : Simulates k m' p') : Simulates k (if c then m else m') (if c then p else p') := by
  split
  · exact h
  · exact h'

/-- Looking at the next token follows the step that does. -/
theorem peek : Simulates k peek Parser.Steps.look := by
  intro d ls _ hawaits
  obtain ⟨hitem, hleft⟩ := Lookahead.Awaits.peek hawaits
  have hrun : Descent.peek d = some (d.lexer.peek.1.elim (.ok none) fun item =>
      item.map fun t => some t.value, { d with lexer := d.lexer.peek.2 }) := rfl
  rw [hitem] at hrun
  cases ls with
  | nil => exact .ok hrun rfl (List.append_nil _).symm rfl hleft
  | cons l ls =>
    show Follows _ _ _ ((l.token.map _).map _)
    rw [List.map_cons, List.head?_cons] at hrun
    cases htoken : l.token with
    | error e =>
      rw [htoken] at hrun
      exact .error hrun (List.append_nil _).symm List.nil_prefix
    | ok t =>
      rw [htoken] at hrun
      exact .ok hrun rfl (List.append_nil _).symm rfl hleft

/-- Taking the next token follows the step that does. -/
theorem take : Simulates k take Parser.Steps.take := by
  intro d ls _ hawaits
  obtain ⟨hitem, hleft⟩ := Lookahead.Awaits.next hawaits
  have hrun : Descent.take d = match d.lexer.next.1 with
      | none => some (.ok none, { d with lexer := d.lexer.next.2 })
      | some (.error e) => some (.error e, { d with lexer := d.lexer.next.2 })
      | some (.ok t) => some (.ok (some t),
          { d with lexer := d.lexer.next.2, taken := d.taken ++ [t] }) := rfl
  rw [hitem] at hrun
  cases ls with
  | nil => exact .ok hrun rfl (List.append_nil _).symm rfl hleft
  | cons l ls =>
    show Follows _ _ _ (l.token.map _)
    rw [List.map_cons, List.head?_cons] at hrun
    cases htoken : l.token with
    | error e =>
      rw [htoken] at hrun
      exact .error hrun (List.append_nil _).symm List.nil_prefix
    | ok t =>
      rw [htoken] at hrun
      have htokens : (l :: ls).map Lexeme.token = [t].map .ok ++ ls.map Lexeme.token := by
        rw [List.map_cons, htoken]
        rfl
      exact .ok hrun rfl rfl htokens hleft

variable {s : Parser.Setting}

/-- What is nested is followed one level deeper, and then the depth is what it was. -/
theorem nested_bind (hlt : k < s.limit) (h : Simulates (k + 1) m p)
    (hf : ∀ a, Simulates k (f a) (g a)) (span : Span) :
    Simulates k (s.enter span >>= fun _ => m >>= fun a => leave >>= fun _ => f a) (p >>= g) := by
  intro d ls hdepth hawaits
  have henter : s.enter span d = some (.ok (), { d with depth := d.depth + 1 }) := by
    rw [enter_eq, if_neg (by omega)]
  have hbelow := h { d with depth := d.depth + 1 } ls (congrArg (· + 1) hdepth) hawaits
  generalize hx : p ls = x at hbelow
  cases hbelow with
  | @ok a rest d' tokens hrun hdepth' htaken htokens hleft =>
    rw [Parser.Steps.bind_of_ok hx]
    -- What is nested has left the depth as it found it, so going up undoes going down.
    have hback : d'.depth - 1 = d.depth := by
      rw [hdepth']
      rfl
    have hleave : leave d' = some (.ok (), { d' with depth := d'.depth - 1 }) := rfl
    have hmore := hf a { d' with depth := d'.depth - 1 } rest (hback.trans hdepth) hleft
    refine hmore.after ?_ hback htaken htokens
    rw [bind_of_ok henter, bind_of_ok hrun, bind_of_ok hleave]
  | error hrun htaken htokens =>
    -- The depth stays where the error was found: the parser is not used any more.
    rw [Parser.Steps.bind_of_error hx]
    refine .error ?_ htaken htokens
    rw [bind_of_ok henter]
    exact bind_of_error hrun

/-- What is nested too deep is an error. -/
theorem nested_throw (hle : s.limit ≤ k) (span : Span) (f : Unit → Run β) :
    Simulates k (s.enter span >>= f) (MonadExcept.throw (s.depthError span)) := by
  intro d ls hdepth hawaits
  have henter : s.enter span d =
      some (.error (s.depthError span), { d with depth := d.depth + 1 }) := by
    rw [enter_eq, if_pos (by omega)]
  exact .error (bind_of_error henter) (List.append_nil _).symm List.nil_prefix

/-- A loop follows a step when it does so as far as it does on fewer lexemes. -/
theorem of_shorter {ι : Type} (loop : ι → Run α) (step : ι → Parser.Steps α)
    (h : ∀ i d ls, d.depth = k → d.Awaits ls →
      (∀ i d' rest, rest.length < ls.length → d'.depth = k → d'.Awaits rest →
        Follows (loop i) d' rest (step i rest)) → Follows (loop i) d ls (step i ls)) (i : ι) :
    Simulates k (loop i) (step i) := by
  intro d ls hdepth hawaits
  induction hlength : ls.length using Nat.strongRecOn generalizing i d ls with
  | ind length ih =>
    refine h i d ls hdepth hawaits fun i' d' rest hshorter hdepth' hawaits' => ?_
    exact ih rest.length (hlength ▸ hshorter) i' d' rest hdepth' hawaits' rfl

end Simulates

/-- A run ends whatever the state is. The tokens that it takes are the first ones of those to come,
each of them once. After a result the depth is what it was and the other lexemes are still to come,
and the result goes with the tokens as it should. -/
def Ends (m : Run α) (P : α → List (Located Token) → Prop) : Prop :=
  ∀ d ls, d.Awaits ls → ∃ result d' tokens, m d = some (result, d') ∧
    d'.taken = d.taken ++ tokens ∧ tokens.map .ok <+: ls.map Lexeme.token ∧
    ∀ a, result = .ok a → d'.depth = d.depth ∧ d'.Awaits (ls.drop tokens.length) ∧ P a tokens

/-- A run that follows a step at every depth ends. -/
theorem ends_of_simulates {P : α → List (Located Token) → Prop}
    (h : ∀ k, ∃ p : Parser.Steps α, Simulates k m p ∧ ∀ ls a rest tokens, p ls = .ok (a, rest) →
      ls.length = tokens.length + rest.length → P a tokens) : Ends m P := by
  intro d ls hawaits
  obtain ⟨p, hsimulates, hp⟩ := h d.depth
  have hfollows := hsimulates d ls rfl hawaits
  generalize hx : p ls = x at hfollows
  cases hfollows with
  | @ok a rest d' tokens hrun hdepth htaken htokens hleft =>
    have hfirst : tokens.map .ok <+: ls.map Lexeme.token := ⟨_, htokens.symm⟩
    have hlength : ls.length = tokens.length + rest.length := by
      simpa using congrArg List.length htokens
    have hdrop : d'.Awaits (ls.drop tokens.length) := by
      show d'.lexer.Awaits _
      rw [List.map_drop, htokens, List.drop_left' (List.length_map _)]
      exact hleft
    refine ⟨.ok a, d', tokens, hrun, htaken, hfirst, ?_⟩
    rintro _ ⟨⟩
    exact ⟨hdepth, hdrop, hp ls a rest tokens hx hlength⟩
  | @error e d' tokens hrun htaken htokens =>
    exact ⟨.error e, d', tokens, hrun, htaken, htokens, nofun⟩

/-- Some tokens were taken when less is left than there was. -/
theorem ne_nil_of_shorter {tokens : List (Located Token)} (hshorter : rest.length < ls.length)
    (hlength : ls.length = tokens.length + rest.length) : tokens ≠ [] := by
  rintro rfl
  rw [List.length_nil] at hlength
  omega

end

end Descent

end EntityQuery
