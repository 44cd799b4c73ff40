import EntityQuery.Proofs.Descent

/-!
# Parsing ends

The parsers with a state have no bound on how long they go on. They end all the same, because each
of them takes the steps of a parser that returns (`Descent.Simulates`). The equations of the two are
compared part by part. A loop is followed by induction on the lexemes that are left, of which every
turn takes some, and what is nested in an operand is followed by induction on the levels that are
left below the bound on the nesting (`Parser.Setting.exists_deepens`): the depth of the one and the
levels of the other make up the bound.

What a call takes is then what the parser takes, so every category of the grammar takes some tokens
when it succeeds, and so does every turn of a loop (`Parser.parsing_ends`).
-/

namespace EntityQuery

namespace Parser.Setting

open Descent (Run Simulates Follows)
open Parser.Steps (of)

variable {s : Setting} {k : Nat}

/-! ## Single tokens -/

/-- The next token is taken as a parser takes it. -/
theorem next_simulates : Simulates k s.next (of (Parser.next s)) := by
  rw [Steps.of_next]
  refine Simulates.take.bind fun t? => ?_
  cases t? with
  | none => exact .throw _
  | some t => exact .pure t

/-- The closing parenthesis is taken as a parser takes it. -/
theorem closing_simulates : Simulates k s.closing (of (Parser.closing s)) := by
  rw [Steps.of_closing]
  exact next_simulates.bind fun t => .ite (.pure t) (.throw _)

/-- A name is taken as a parser takes it. -/
theorem name_simulates : Simulates k s.name (of (Parser.name s)) := by
  rw [Steps.of_name]
  refine next_simulates.bind fun t => ?_
  obtain ⟨value, span⟩ := t
  cases value with
  | ident name => exact .pure _
  | _ => exact .throw _

/-- A comma is taken as a step takes it. -/
theorem comma_simulates : Simulates k s.comma (Steps.comma s) := by
  refine Simulates.peek.bind fun t? => .ite ?_ (.pure false)
  exact next_simulates.bind fun _ => .pure true

/-! ## Operators between operands -/

section

variable {level : Level} {operand : Parser Syntax}
  (hoperand : Simulates k (s.parse level.operands) (of operand))
include hoperand

/-- An operator and its right operand are taken as a step takes them. -/
theorem operator_simulates (left : Syntax) :
    Simulates k (s.operator level left) (Steps.operation s level.op? (of operand) left) := by
  rw [operator]
  refine Simulates.peek.bind fun t? => ?_
  cases t?.bind level.op? with
  | none => exact .pure none
  | some op =>
    refine next_simulates.bind fun _ => hoperand.bind fun right => ?_
    exact .pure (some (left.join op right))

/-- From a left operand on, operators and operands are taken as a parser takes them. -/
theorem operators_simulates (left : Syntax) :
    Simulates k (s.operators level left) (of (chainFrom operand level.op? left)) := by
  -- Every operation takes some lexemes, so the loop is followed on what it leaves.
  refine Simulates.of_shorter (s.operators level)
    (fun left => of (chainFrom operand level.op? left)) (fun left d ls hdepth hawaits ih => ?_) left
  rw [operators, Steps.of_chainFrom s]
  refine (operator_simulates hoperand left d ls hdepth hawaits).bind
    fun left? rest d' hok hsame hawaits' => ?_
  have hdepth' := hsame.trans hdepth
  cases left? with
  | none => exact Simulates.pure left d' rest hdepth' hawaits'
  | some left' => exact ih left' d' rest (Steps.length_lt_of_operation hok) hdepth' hawaits'

/-- Operations of a level are taken as a chain. -/
theorem operations_simulates :
    Simulates k (s.parse (.operations level)) (of (chain level.op? operand)) := by
  rw [parse, Steps.of_chain]
  exact hoperand.bind fun left => operators_simulates hoperand left

end

/-- Operations of every level are taken by the parser of the level. -/
theorem parse_simulates_of_prefixed {operand : Parser Syntax}
    (h : Simulates k (s.parse .prefixed) (of operand)) (level : Level) :
    Simulates k (s.parse (.operations level))
      (of ((Category.operations level).parser operand)) := by
  have hmultiplicative : Simulates k (s.parse (.operations .multiplicative)) _ :=
    operations_simulates h
  have hadditive : Simulates k (s.parse (.operations .additive)) _ :=
    operations_simulates hmultiplicative
  have hrelational : Simulates k (s.parse (.operations .relational)) _ :=
    operations_simulates hadditive
  have hand : Simulates k (s.parse (.operations .and)) _ := operations_simulates hrelational
  cases level with
  | or => exact operations_simulates hand
  | and => exact hand
  | relational => exact hrelational
  | additive => exact hadditive
  | multiplicative => exact hmultiplicative

/-- The operands of every level are taken by the parser of their category. -/
theorem parse_operands_simulates {operand : Parser Syntax}
    (h : Simulates k (s.parse .prefixed) (of operand)) (level : Level) :
    Simulates k (s.parse level.operands) (of (level.operands.parser operand)) := by
  cases level with
  | multiplicative => exact h
  | or | and | relational | additive => exact parse_simulates_of_prefixed h _

/-! ## Lists -/

/-- One turn of a loop that takes values, and the loop again while the turn says that there are
more. -/
def turns {α : Type} (turn : Run (α × Bool)) (loop : Run (List α)) : Run (List α) := do
  let (a, more) ← turn
  if more then return a :: (← loop) else return [a]

/-- Arguments are taken turn by turn. -/
theorem arguments_eq_turns (s : Setting) : s.arguments = turns s.argument s.arguments := by
  unfold turns
  conv_lhs => rw [arguments]

/-- Items of a sort order are taken turn by turn. -/
theorem items_eq_turns (s : Setting) : s.items = turns s.item s.items := by
  unfold turns
  conv_lhs => rw [items]

/-- A loop over values with commas between them takes them as a parser of the list does. -/
theorem list_simulates {α : Type} {loop : Run (List α)} {turn : Run (α × Bool)} {p : Parser α}
    {list : Parser (List α)} (hlist : ∀ ls, list ls = oneOrMore p list ls)
    (hloop : loop = turns turn loop) (hturn : Simulates k turn (Steps.listed s (of p))) :
    Simulates k loop (of list) := by
  -- Every value takes some lexemes, so the loop is followed on what it leaves.
  refine Simulates.of_shorter (fun _ : Unit => loop) (fun _ => of list)
    (fun _ d ls hdepth hawaits ih => ?_) ()
  have hsteps : of list = of (oneOrMore p list) := funext fun ls => congrArg _ (hlist ls)
  show Follows loop d ls (of list ls)
  rw [hloop, hsteps, Steps.of_oneOrMore s]
  refine (hturn d ls hdepth hawaits).bind fun found rest d' hok hsame hawaits' => ?_
  have hdepth' := hsame.trans hdepth
  obtain ⟨a, more⟩ := found
  cases more with
  | false => exact Simulates.pure [a] d' rest hdepth' hawaits'
  | true =>
    have hmore := ih () d' rest (Steps.length_lt_of_listed hok) hdepth' hawaits'
    refine hmore.bind fun as rest' d'' _ hsame' hawaits'' => ?_
    exact Simulates.pure (a :: as) d'' rest' (hsame'.trans hdepth') hawaits''

/-- An argument is taken as a step takes it. -/
theorem argument_simulates {p : Parser Syntax} (h : Simulates k (s.parse .expression) (of p)) :
    Simulates k s.argument (Steps.listed s (of p)) := by
  rw [argument]
  exact h.bind fun e => comma_simulates.bind fun more => .pure (e, more)

/-- Between the parentheses of a call, arguments are taken as a parser takes them. -/
theorem callArguments_simulates {p : Parser Syntax} (h : Simulates k (s.parse .expression) (of p)) :
    Simulates k s.callArguments (of (Parser.callArguments p)) := by
  rw [callArguments, Steps.of_callArguments]
  refine Simulates.peek.bind fun t? => .ite (.pure []) ?_
  exact list_simulates (arguments_eq p) s.arguments_eq_turns (argument_simulates h)

/-- A segment is taken as a step takes it. -/
theorem segment_simulates : Simulates k s.segment (Steps.segment s) := by
  refine Simulates.peek.bind fun t? => .ite ?_ (.pure none)
  exact next_simulates.bind fun _ => name_simulates.bind fun name => .pure (some name)

/-- The segments of a path are taken as a parser takes them. -/
theorem segments_simulates : Simulates k s.segments (of (Parser.segments s)) := by
  -- Every segment takes some lexemes, so the loop is followed on what it leaves.
  refine Simulates.of_shorter (fun _ : Unit => s.segments) (fun _ => of (Parser.segments s))
    (fun _ d ls hdepth hawaits ih => ?_) ()
  show Follows s.segments d ls (of (Parser.segments s) ls)
  rw [segments, Steps.of_segments]
  refine (segment_simulates d ls hdepth hawaits).bind fun segment? rest d' hok hsame hawaits' => ?_
  have hdepth' := hsame.trans hdepth
  cases segment? with
  | none => exact Simulates.pure [] d' rest hdepth' hawaits'
  | some segment =>
    have hmore := ih () d' rest (Steps.length_lt_of_segment hok) hdepth' hawaits'
    refine hmore.bind fun more rest' d'' _ hsame' hawaits'' => ?_
    exact Simulates.pure (segment :: more) d'' rest' (hsame'.trans hdepth') hawaits''

/-! ## Operands -/

/-- What is nested at a depth is taken as the parsers of the next level down take it, which are
missing where the bound is reached. -/
inductive Deepens (s : Setting) (k : Nat) : Option Deeper → Prop
  | none (hle : s.limit ≤ k) : Deepens s k none
  | some {deeper : Deeper} (hlt : k < s.limit)
      (hoperand : Simulates (k + 1) (s.parse .prefixed) (of deeper.operand))
      (hexpression : Simulates (k + 1) (s.parse .expression) (of deeper.expression)) :
      Deepens s k (some deeper)

section

variable {α β : Type} {deeper? : Option Deeper} (hdeeper : Deepens s k deeper?)
include hdeeper

/-- What is nested is taken as a step takes it. -/
theorem nested_simulates {m : Run α} {steps : Deeper → Steps α} {f : α → Run β}
    {g : α → Steps β} (span : Span)
    (h : ∀ deeper, Simulates (k + 1) (s.parse .prefixed) (of deeper.operand) →
      Simulates (k + 1) (s.parse .expression) (of deeper.expression) →
        Simulates (k + 1) m (steps deeper))
    (hf : ∀ a, Simulates k (f a) (g a)) :
    Simulates k (s.enter span >>= fun _ => m >>= fun a => Descent.leave >>= fun _ => f a)
      (Steps.nested s deeper? span steps >>= g) := by
  cases hdeeper with
  | none hle =>
    exact Simulates.nested_throw hle span _
  | some hlt hoperand hexpression =>
    exact Simulates.nested_bind hlt (h _ hoperand hexpression) hf span

/-- What follows a name is taken as a parser takes it. -/
theorem afterName_simulates (first : Located String) :
    Simulates k (s.afterName first) (of (Parser.afterName s deeper? first)) := by
  rw [afterName, Steps.of_afterName]
  refine Simulates.peek.bind fun t? => .ite ?_ ?_
  · refine next_simulates.bind fun _ => ?_
    refine nested_simulates hdeeper first.span (fun _ _ h => ?_) fun args => ?_
    · exact callArguments_simulates h
    · exact closing_simulates.bind fun close => .pure _
  · exact segments_simulates.bind fun more => .pure _

/-- An operand that begins with no prefix operator is taken as a step takes it. -/
theorem primary_simulates : Simulates k (s.parse .primary) (Steps.primary s deeper?) := by
  rw [parse]
  refine next_simulates.bind fun t => ?_
  obtain ⟨value, span⟩ := t
  cases value with
  | symbol symbol =>
    cases symbol with
    | «open» =>
      refine nested_simulates hdeeper span (fun _ _ h => h) fun e => ?_
      exact closing_simulates.bind fun _ => .pure e
    | _ => exact .throw _
  | ident name => exact afterName_simulates hdeeper ⟨name, span⟩
  | keyword k =>
    cases k with
    | null | bool b => exact .pure _
    | _ => exact .throw _
  | _ => exact .pure _

/-- An operand is taken as a parser takes it. -/
theorem prefixed_simulates :
    Simulates k (s.parse .prefixed) (of (operandWith s deeper?)) := by
  rw [parse, Steps.of_operandWith]
  refine Simulates.peek.bind fun t? => ?_
  cases t?.bind unaryOp? with
  | none => exact primary_simulates hdeeper
  | some op =>
    refine next_simulates.bind fun t => ?_
    exact nested_simulates hdeeper t.span (fun _ h _ => h) fun e => .pure _

/-- An operand is taken by the parser for a number of levels when this uses the parsers of the next
level down. -/
theorem prefixed_simulates_operand {levels : Nat}
    (h : ∀ ls, operand s levels ls = operandWith s deeper? ls) :
    Simulates k (s.parse .prefixed) (of (operand s levels)) := by
  have hsame : of (operand s levels) = of (operandWith s deeper?) :=
    funext fun ls => congrArg _ (h ls)
  rw [hsame]
  exact prefixed_simulates hdeeper

end

/-- At a depth, what is nested is taken by the parsers for as many levels as are left. -/
theorem exists_deepens (s : Setting) (k : Nat) :
    ∃ deeper?, Deepens s k deeper? ∧
      ∀ ls, operand s (s.limit - k) ls = operandWith s deeper? ls := by
  -- The induction is on the levels that are left; with one less the depth is one more.
  induction hlevels : s.limit - k generalizing k with
  | zero =>
    refine ⟨none, .none (by omega), fun ls => ?_⟩
    rw [operand]
  | succ levels ih =>
    obtain ⟨deeper?, hdeeper, hoperand⟩ := ih (k + 1) (by omega)
    have hprefixed := prefixed_simulates_operand hdeeper hoperand
    have hexpression := parse_simulates_of_prefixed hprefixed .or
    refine ⟨some ⟨operand s levels, expressionOf (operand s levels)⟩,
      .some (by omega) hprefixed hexpression, fun ls => ?_⟩
    rw [operand]

/-- At a depth, an operand is taken by the parser for as many levels as are left. -/
theorem parse_prefixed_simulates (s : Setting) (k : Nat) :
    Simulates k (s.parse .prefixed) (of (operand s (s.limit - k))) := by
  obtain ⟨deeper?, hdeeper, hoperand⟩ := exists_deepens s k
  exact prefixed_simulates_operand hdeeper hoperand

/-! ## Sort orders -/

/-- A direction is taken as a parser takes it. -/
theorem direction_simulates : Simulates k s.direction (of Parser.direction) := by
  rw [Steps.of_direction s]
  refine Simulates.peek.bind fun t? => ?_
  cases t? with
  | none => exact .pure none
  | some t =>
    cases t with
    | keyword k =>
      cases k with
      | direction d => exact next_simulates.bind fun t => .pure _
      | _ => exact .pure none
    | _ => exact .pure none

/-- An item is taken as a step takes it. -/
theorem item_simulates {p : Parser Syntax} (h : Simulates k (s.parse .expression) (of p)) :
    Simulates k s.item (Steps.listed s (of (orderItem p))) := by
  unfold item Steps.listed
  rw [Steps.of_orderItem, bind_assoc]
  refine h.bind fun e => ?_
  rw [bind_assoc]
  refine direction_simulates.bind fun d? => ?_
  cases d? with
  | none => exact comma_simulates.bind fun more => .pure _
  | some d => exact comma_simulates.bind fun more => .pure _

/-- Items of a sort order are taken as a parser takes them. -/
theorem items_simulates {p : Parser Syntax} (h : Simulates k (s.parse .expression) (of p)) :
    Simulates k s.items (of (orderItems p)) :=
  list_simulates (orderItems_eq p) s.items_eq_turns (item_simulates h)

/-- The end of a text is looked for as a step looks for it. -/
theorem finish_simulates : Simulates k finish Steps.finish := by
  refine Simulates.take.bind fun t? => ?_
  cases t? with
  | none => exact .pure ()
  | some t => exact .throw _

/-! ## Whole texts -/

/-- At a depth, an expression is taken by the parser for as many levels as are left. -/
theorem parse_expression_simulates (s : Setting) (k : Nat) :
    Simulates k (s.parse .expression) (of (expressionOf (operand s (s.limit - k)))) :=
  parse_simulates_of_prefixed (parse_prefixed_simulates s k) .or

/-- From the start of a text on, a run that ends with the end of the text has the result of the
parser that does. -/
theorem run_ofSource {α : Type} {m : Run α} {p : Parser α} (h : Simulates 0 m (of p))
    (source : String) :
    ((m >>= fun a => finish >>= fun _ => pure a) (.ofSource source)).map Prod.fst =
      some (p (Lexeme.all source) >>= fun (a, rest) =>
        Parser.finish rest.1 >>= fun _ => pure a) := by
  have hrun := h.bind fun a => finish_simulates.bind fun _ => Simulates.pure a
  -- At the start all lexemes of the text are still to come.
  have hstart : (Descent.ofSource source).Awaits (Lexeme.all source) :=
    Lookahead.awaits_ofSource source
  have hfollows := hrun (.ofSource source) (Lexeme.all source) rfl hstart
  rw [Steps.finish_bind rfl] at hfollows
  refine hfollows.result.trans (congrArg some ?_)
  cases p (Lexeme.all source) >>= fun (a, rest) => Parser.finish rest.1 >>= fun _ => pure a with
  | error e => rfl
  | ok a => rfl

/-! ## What runs take -/

/-- Every category of the grammar takes some tokens. -/
theorem parse_ends (s : Setting) (c : Category) :
    Descent.Ends (s.parse c) fun _ tokens => tokens ≠ [] := by
  refine Descent.ends_of_simulates fun k => ?_
  have hprefixed := parse_prefixed_simulates s k
  cases c with
  | operations level =>
    refine ⟨_, parse_simulates_of_prefixed hprefixed level, fun ls e rest tokens hok hlength => ?_⟩
    exact Descent.ne_nil_of_shorter (Steps.prop_of_eq_ok hok) hlength
  | prefixed =>
    refine ⟨_, hprefixed, fun ls e rest tokens hok hlength => ?_⟩
    exact Descent.ne_nil_of_shorter (Steps.prop_of_eq_ok hok) hlength
  | primary =>
    obtain ⟨deeper?, hdeeper, -⟩ := exists_deepens s k
    refine ⟨_, primary_simulates hdeeper, fun ls e rest tokens hok hlength => ?_⟩
    exact Descent.ne_nil_of_shorter (Steps.length_lt_of_primary hok) hlength

/-- What follows a name takes no tokens when it is a path of this name alone, and else it takes
some. -/
theorem afterName_ends (s : Setting) (first : Located String) :
    Descent.Ends (s.afterName first) fun e tokens =>
      tokens = [] ↔ e = .path [first.value] first.span := by
  refine Descent.ends_of_simulates fun k => ?_
  obtain ⟨deeper?, hdeeper, -⟩ := exists_deepens s k
  refine ⟨_, afterName_simulates hdeeper first, fun ls e rest tokens hok hlength => ?_⟩
  have hempty : tokens = [] ↔ rest.length = ls.length := by
    rw [← List.length_eq_zero_iff]
    omega
  rw [hempty]
  -- A call has its opening parenthesis, and every segment of a path its slash.
  rcases afterName_yields.mp (Steps.of_eq_ok_iff.mp hok) with
    ⟨deeper, l, after, args, close, -, rfl, -, ⟨hargs, -⟩, -, rfl⟩ | ⟨-, more, hmore, rfl⟩
  · rw [List.length_cons] at hargs
    rw [List.length_cons]
    exact iff_of_false (by omega) nofun
  · cases hmore with
    | none => exact iff_of_true rfl rfl
    | more _ _ hmore =>
      obtain ⟨hafter, -⟩ := (segments_yields (s := s)).mpr hmore
      rw [List.length_cons, List.length_cons]
      exact iff_of_false (by omega) (by simp)

/-- One turn of the loop over operators takes some tokens when it makes an operation. -/
theorem operator_ends (s : Setting) (level : Level) (left : Syntax) :
    Descent.Ends (s.operator level left) fun e? tokens => e?.isSome = true → tokens ≠ [] := by
  refine Descent.ends_of_simulates fun k => ?_
  have hoperand := parse_operands_simulates (parse_prefixed_simulates s k) level
  refine ⟨_, operator_simulates hoperand left, fun ls e? rest tokens hok hlength hsome => ?_⟩
  obtain ⟨e, rfl⟩ := Option.isSome_iff_exists.mp hsome
  exact Descent.ne_nil_of_shorter (Steps.length_lt_of_operation hok) hlength

/-- One turn of the loop over segments takes some tokens when there is a segment. -/
theorem segment_ends (s : Setting) :
    Descent.Ends s.segment fun name? tokens => name?.isSome = true → tokens ≠ [] := by
  refine Descent.ends_of_simulates fun k => ?_
  refine ⟨_, segment_simulates, fun ls name? rest tokens hok hlength hsome => ?_⟩
  obtain ⟨name, rfl⟩ := Option.isSome_iff_exists.mp hsome
  exact Descent.ne_nil_of_shorter (Steps.length_lt_of_segment hok) hlength

/-- One turn of the loop over arguments takes some tokens. -/
theorem argument_ends (s : Setting) : Descent.Ends s.argument fun _ tokens => tokens ≠ [] := by
  refine Descent.ends_of_simulates fun k => ?_
  have hargument := argument_simulates (parse_expression_simulates s k)
  refine ⟨_, hargument, fun ls found rest tokens hok hlength => ?_⟩
  exact Descent.ne_nil_of_shorter (Steps.length_lt_of_listed hok) hlength

/-- One turn of the loop over items takes some tokens. -/
theorem item_ends (s : Setting) : Descent.Ends s.item fun _ tokens => tokens ≠ [] := by
  refine Descent.ends_of_simulates fun k => ?_
  have hitem := item_simulates (parse_expression_simulates s k)
  refine ⟨_, hitem, fun ls found rest tokens hok hlength => ?_⟩
  exact Descent.ne_nil_of_shorter (Steps.length_lt_of_listed hok) hlength

/-- A run that ends with the end of the text ends, and a text that it accepts has some tokens. -/
theorem whole_ends {α : Type} {m : Run α} (h : ∀ k, ∃ p : Parser α, Simulates k m (of p)) :
    Descent.Ends (m >>= fun a => finish >>= fun _ => pure a) fun _ tokens => tokens ≠ [] := by
  refine Descent.ends_of_simulates fun k => ?_
  obtain ⟨p, hp⟩ := h k
  refine ⟨_, hp.bind fun a => finish_simulates.bind fun _ => .pure a, ?_⟩
  intro ls a rest tokens hok hlength
  obtain ⟨a', mid, ha, hok⟩ := Steps.bind_eq_ok.mp hok
  obtain ⟨_, rest', hfinish, hok⟩ := Steps.bind_eq_ok.mp hok
  obtain ⟨-, rfl⟩ := Steps.pure_eq_ok.mp hok
  -- Nothing is left at the end, and less than there was before it, so something was taken.
  obtain rfl := Steps.eq_nil_of_finish hfinish
  have hmid : mid.length < ls.length := Steps.prop_of_eq_ok ha
  have hnone : ([] : List Lexeme).length < ls.length := Nat.zero_lt_of_lt hmid
  exact Descent.ne_nil_of_shorter hnone hlength

end Parser.Setting

/-- Parsing ends on every text, with the filter, the sort order or the error that the text has. From
whatever state on, each category of the grammar ends and takes some tokens when it succeeds, and so
does each turn of a loop: an operation, a segment of a path, an argument, an item. Tokens are taken
in order and none of them twice, and after a success the depth is what it was before. What follows a
name takes some tokens as well, unless it is the path of the name alone, which was taken before. -/
theorem Parser.parsing_ends (source : String) (limit : Nat) :
    let s := Parser.settingOf source limit
    let start := Descent.ofSource source
    (start.Awaits (Lexeme.all source) ∧
      (s.parseFilter start).map Prod.fst = some (Syntax.parseFilter source limit) ∧
      (s.parseList start).map Prod.fst = some (OrderItem.parseList source limit)) ∧
    (Descent.Ends s.parseFilter fun _ tokens => tokens ≠ []) ∧
    (Descent.Ends s.parseList fun _ tokens => tokens ≠ []) ∧
    (∀ c, Descent.Ends (s.parse c) fun _ tokens => tokens ≠ []) ∧
    (∀ first, Descent.Ends (s.afterName first) fun e tokens =>
      tokens = [] ↔ e = .path [first.value] first.span) ∧
    (∀ level left, Descent.Ends (s.operator level left) fun e? tokens =>
      e?.isSome = true → tokens ≠ []) ∧
    (Descent.Ends s.segment fun name? tokens => name?.isSome = true → tokens ≠ []) ∧
    (Descent.Ends s.argument fun _ tokens => tokens ≠ []) ∧
    Descent.Ends s.item fun _ tokens => tokens ≠ [] := by
  intro s start
  have hexpression := s.parse_expression_simulates
  have hitems : ∀ k, Descent.Simulates k s.items _ := fun k =>
    Parser.Setting.items_simulates (hexpression k)
  have hfilter : (s.parseFilter start).map Prod.fst = some (Syntax.parseFilter source limit) :=
    Parser.Setting.run_ofSource (hexpression 0) source
  have hlist : (s.parseList start).map Prod.fst = some (OrderItem.parseList source limit) :=
    Parser.Setting.run_ofSource (hitems 0) source
  exact ⟨⟨Lookahead.awaits_ofSource source, hfilter, hlist⟩,
    Parser.Setting.whole_ends fun k => ⟨_, hexpression k⟩,
    Parser.Setting.whole_ends fun k => ⟨_, hitems k⟩,
    s.parse_ends, s.afterName_ends, s.operator_ends, s.segment_ends, s.argument_ends, s.item_ends⟩

end EntityQuery
