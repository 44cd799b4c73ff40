import EntityQuery.Proofs.Literals
import EntityQuery.Proofs.Orderings
import EntityQuery.Proofs.WholeNumbers

/-!
# Negation of literals

A minus sign before a numeric literal is taken into the constant, and the negation of a whole number
of 64 bits has a result for every number but the least one. A parsed expression has no negative
literals, because a minus sign is a token of its own, so typing with checked negations
(`Typing.checkedExpr`) always has the result of typing (`Typing.checkedExpr_eq`). A sign is taken in
once for each literal, and by an operator that stands directly before it; any other sign remains an
operator. The numbers of the typed expression are therefore the written ones, negated where such a
sign stands (`Typing.numbers_expr`).
-/

namespace EntityQuery

/-! ## Whole numbers without a sign -/

namespace Syntax

/-- Whole numbers among some nodes are not negative. -/
def Unsigned (nodes : List Syntax) : Prop :=
  ∀ value span n, literal value span ∈ nodes → value.whole? = some n → 0 ≤ n.toInt

variable {nodes nodes' : List Syntax}

/-- Fewer nodes have fewer numbers. -/
theorem Unsigned.mono (h : Unsigned nodes) (hsub : nodes' ⊆ nodes) : Unsigned nodes' :=
  fun value span n hmem hn => h value span n (hsub hmem) hn

/-- The nodes of both operands are among those of an operation. -/
theorem Unsigned.operands {op : BinaryOp} {left right : Syntax} {span : Span}
    (h : Unsigned (binary op left right span).nodes) :
    Unsigned left.nodes ∧ Unsigned right.nodes := by
  have hoperands := h.mono (List.subset_cons_self _ _)
  exact ⟨hoperands.mono (List.subset_append_left left.nodes right.nodes),
    hoperands.mono (List.subset_append_right left.nodes right.nodes)⟩

/-- The nodes of the first expression and of the others are among those of all. -/
theorem Unsigned.head_tail {e : Syntax} {es : List Syntax}
    (h : Unsigned (Syntax.nodes.nodesOfAll (e :: es))) :
    Unsigned e.nodes ∧ Unsigned (Syntax.nodes.nodesOfAll es) :=
  ⟨h.mono (List.subset_append_left e.nodes (Syntax.nodes.nodesOfAll es)),
    h.mono (List.subset_append_right e.nodes (Syntax.nodes.nodesOfAll es))⟩

/-- The whole numbers of an expression are not negative when its literals are those of a text. -/
theorem LiteralsIn.unsigned {source : String} {e : Syntax}
    (h : e.LiteralsIn (Lexeme.all source)) : Unsigned e.nodes := by
  intro value span n hmem hn
  obtain ⟨text, hspells, -⟩ := h.written hmem hn
  exact hspells.nonneg hn

end Syntax

/-! ## Checked negations -/

/-- The literal with the opposite sign, or nothing where the negation of a 64-bit number overflows,
for its exact result is beyond the greatest of these numbers. -/
def Literal.checkedNegate? (value : Literal) : Option (Option Literal) :=
  if value.whole?.any fun n => Int64.maxValue.toInt < -n.toInt then none else some value.negate?

/-- The negation of a number that is not negative has a result. -/
theorem Literal.checkedNegate?_eq {value : Literal}
    (h : ∀ n, value.whole? = some n → 0 ≤ n.toInt) : value.checkedNegate? = some value.negate? := by
  refine if_neg ?_
  rw [Option.any_eq_true]
  rintro ⟨n, hn, hover⟩
  have hnonneg := h n hn
  have hover := of_decide_eq_true hover
  have hmost : 0 ≤ Int64.maxValue.toInt := by decide
  omega

namespace Typing

variable {m : Metadata} {root : String}

/-- Types an expression as `Typing.expr` does, but with every negation checked: when one overflows
there is no result, neither an expression nor an error. -/
def checkedExpr (m : Metadata) (root : String) : Syntax → ExceptT TypeError Option Expr
  | .binary op left right _ => do
    let left ← checkedExpr m root left
    let right ← checkedExpr m root right
    return binary op left right
  | .unary .negate (.literal value _) span => do
    match ← value.checkedNegate? with
    | some negated => constant negated span
    | none => throw ⟨.invalidLiteral "only numeric literals can be negated", span⟩
  | .unary op operand _ => do
    let operand ← checkedExpr m root operand
    return .unary op operand
  | .path segments span => do
    let ty ← pathType m root segments span
    return .property segments ty
  | .call name args span => do
    let f ← function name args.length span
    let args ← exprs args
    return .call f args
  | .literal value span => constant value span
where
  /-- Types expressions one after the other. -/
  exprs : List Syntax → ExceptT TypeError Option (List Expr)
    | [] => return []
    | e :: es => do
      let e ← checkedExpr m root e
      let es ← exprs es
      return e :: es

section

variable {α β : Type} {x : ExceptT TypeError Option α} {y : Except TypeError α}
  {f : α → ExceptT TypeError Option β} {g : α → Except TypeError β}

/-- Steps that have the results of others have them one after the other. -/
theorem run_bind_eq (hx : x.run = some y) (hf : ∀ a, (f a).run = some (g a)) :
    (x >>= f).run = some (y >>= g) := by
  rw [ExceptT.run_bind, hx]
  cases y with
  | error e => rfl
  | ok a => exact hf a

end

/-- No negation overflows when the whole numbers are not negative. -/
theorem checkedExpr_eq {e : Syntax} (h : Syntax.Unsigned e.nodes) :
    (checkedExpr m root e).run = some (expr m root e) := by
  -- The induction is on the expression, and on the list of arguments together with it.
  induction e using @Syntax.rec _
    (fun es => Syntax.Unsigned (Syntax.nodes.nodesOfAll es) →
      (checkedExpr.exprs m root es).run = some (expr.exprs m root es)) with
  | binary op left right span ihl ihr =>
    obtain ⟨hleft, hright⟩ := h.operands
    rw [checkedExpr, expr]
    refine run_bind_eq (ihl hleft) fun l => ?_
    exact run_bind_eq (ihr hright) fun r => rfl
  | unary op operand span ih =>
    have hoperand := h.mono (List.subset_cons_self _ operand.nodes)
    -- Only a minus sign that stands directly before a literal is computed with.
    by_cases hliteral : ∃ value place, op = .negate ∧ operand = .literal value place
    · obtain ⟨value, place, rfl, rfl⟩ := hliteral
      have hnegate := Literal.checkedNegate?_eq fun n =>
        hoperand value place n List.mem_cons_self
      rw [checkedExpr, expr, hnegate]
      cases value.negate? with
      | none => rfl
      | some negated => rfl
    · have hother : ∀ value place, op = .negate → operand = .literal value place → False :=
        fun value place hop hoperand => hliteral ⟨value, place, hop, hoperand⟩
      rw [checkedExpr, expr]
      · exact run_bind_eq (ih hoperand) fun _ => rfl
      · exact hother
      · exact hother
  | path segments span =>
    rw [checkedExpr, expr]
    exact run_bind_eq rfl fun _ => rfl
  | call name args span ih =>
    have hargs := h.mono (List.subset_cons_self _ (Syntax.nodes.nodesOfAll args))
    rw [checkedExpr, expr]
    refine run_bind_eq rfl fun _ => ?_
    exact run_bind_eq (ih hargs) fun _ => rfl
  | literal value span =>
    rw [checkedExpr, expr]
    rfl
  | nil => rfl
  | cons e es ihe ihes =>
    rename_i h
    obtain ⟨hfirst, hmore⟩ := Syntax.Unsigned.head_tail h
    rw [checkedExpr.exprs, expr.exprs]
    refine run_bind_eq (ihe hfirst) fun _ => ?_
    exact run_bind_eq (ihes hmore) fun _ => rfl

/-- A minus sign before the least number would overflow. -/
example (place span : Span) :
    (checkedExpr m root (.unary .negate (.literal (.int Int64.minValue) place) span)).run = none :=
  rfl

end Typing

/-! ## Numbers of expressions -/

/-- A number in an expression: a whole one, a decimal by its digits, or one of double precision. -/
inductive Number
  | whole (n : Int)
  | decimal (digits : String)
  | double (x : Binary64)
deriving DecidableEq

/-- The number with the opposite sign. -/
def Number.neg : Number → Number
  | whole n => whole (-n)
  | decimal digits => decimal ("-" ++ digits)
  | double x => double x.neg

/-- The number that a literal is. -/
def Literal.number? : Literal → Option Number
  | int n | long n => some (.whole n.toInt)
  | decimal digits => some (.decimal digits)
  | double x => some (.double x)
  | _ => none

/-- The number that a value is. -/
def Value.number? : Value → Option Number
  | int32 n => some (.whole n.toInt)
  | int64 n => some (.whole n.toInt)
  | decimal digits => some (.decimal digits)
  | float64 x => some (.double x)
  | _ => none

/-- The numbers of a parsed expression from left to right, with the opposite sign where a minus sign
stands directly before the literal. -/
def Syntax.numbers : Syntax → List Number
  | binary _ left right _ => left.numbers ++ right.numbers
  | unary .negate (literal value _) _ => (value.number?.map Number.neg).toList
  | unary _ operand _ => operand.numbers
  | path _ _ => []
  | call _ args _ => numbersOfAll args
  | literal value _ => value.number?.toList
where
  /-- The numbers of some expressions. -/
  numbersOfAll : List Syntax → List Number
    | [] => []
    | e :: es => e.numbers ++ numbersOfAll es

/-- The number that an expression is if it is a constant. -/
def Expr.number? : Expr → Option Number
  | constant value _ => value.number?
  | _ => none

/-- The numbers of a typed expression from left to right. -/
def Expr.numbers (e : Expr) : List Number := e.parts.filterMap number?

/-- A number that is not negative has its exact negative as the opposite. -/
theorem Literal.number?_of_negate? {value negated : Literal}
    (h : ∀ n, value.whole? = some n → 0 ≤ n.toInt) (hnegate : value.negate? = some negated) :
    negated.number? = value.number?.map Number.neg := by
  have hexact : ∀ n, value.whole? = some n → (-n).toInt = -n.toInt := by
    intro n hn
    have hnonneg : 0 ≤ n.toInt := h n hn
    refine toInt_neg_of_ne_minValue ?_
    rintro rfl
    exact absurd hnonneg (by decide)
  cases value with
  | int n | long n =>
    cases hnegate
    show some (Number.whole (-n).toInt) = some (Number.whole (-n.toInt))
    rw [hexact n rfl]
  | double x | decimal digits =>
    cases hnegate
    rfl
  | _ => cases hnegate

namespace Typing

variable {m : Metadata} {root : String}

/-- The constant of a literal has the number of the literal. -/
theorem numbers_constant {value : Literal} {span : Span} {typed : Expr}
    (h : constant value span = .ok typed) : typed.numbers = value.number?.toList := by
  cases value with
  | int n =>
    obtain ⟨v, hv, hconstant⟩ := constant_int n
    obtain rfl : Expr.ofValue v = typed := Except.ok.inj ((hconstant span).symm.trans h)
    have hnumber : (Expr.ofValue v).number? = some (.whole n.toInt) := by
      cases v with
      | int32 i => exact congrArg (some ∘ Number.whole) hv
      | int64 i => exact congrArg (some ∘ Number.whole) hv.1
      | _ => exact hv.elim
    show [Expr.ofValue v].filterMap Expr.number? = [Number.whole n.toInt]
    rw [List.filterMap_cons_some hnumber, List.filterMap_nil]
  | double x =>
    unfold constant at h
    dsimp only at h
    split at h
    next =>
      cases h
      rfl
    next => cases h
  | _ =>
    cases h
    rfl

/-- What is typed has the numbers that are written, when the whole ones are not negative. -/
theorem numbers_expr {e : Syntax} {typed : Expr} (h : Syntax.Unsigned e.nodes)
    (htyped : expr m root e = .ok typed) : typed.numbers = e.numbers := by
  induction e using @Syntax.rec _
    (fun es => ∀ typed, Syntax.Unsigned (Syntax.nodes.nodesOfAll es) →
      expr.exprs m root es = .ok typed →
        (Expr.parts.partsOfAll typed).filterMap Expr.number? = Syntax.numbers.numbersOfAll es)
    generalizing typed with
  | binary op left right span ihl ihr =>
    obtain ⟨hleft, hright⟩ := h.operands
    unfold expr at htyped
    obtain ⟨l, hl, htyped⟩ := except_bind_eq_ok.mp htyped
    obtain ⟨r, hr, htyped⟩ := except_bind_eq_ok.mp htyped
    cases htyped
    -- An operation is no number, so its numbers are those of its operands.
    have hnone : (binary op l r).number? = none := by
      cases op <;> rfl
    calc (binary op l r).numbers
        = (l.parts ++ r.parts).filterMap Expr.number? := by
          rw [Expr.numbers, parts_binary, List.filterMap_cons_none hnone]
      _ = l.numbers ++ r.numbers := List.filterMap_append
      _ = left.numbers ++ right.numbers := by rw [ihl hleft hl, ihr hright hr]
      _ = (Syntax.binary op left right span).numbers := by rw [Syntax.numbers]
  | unary op operand span ih =>
    have hoperand := h.mono (List.subset_cons_self _ operand.nodes)
    by_cases hliteral : ∃ value place, op = .negate ∧ operand = .literal value place
    · obtain ⟨value, place, rfl, rfl⟩ := hliteral
      rw [expr] at htyped
      split at htyped
      next negated hnegated =>
        have hnumber := Literal.number?_of_negate?
          (fun n => hoperand value place n List.mem_cons_self) hnegated
        rw [numbers_constant htyped, hnumber, Syntax.numbers]
      next => cases htyped
    · have hother : ∀ value place, op = .negate → operand = .literal value place → False :=
        fun value place hop hoperand => hliteral ⟨value, place, hop, hoperand⟩
      rw [expr] at htyped
      · obtain ⟨inner, hinner, htyped⟩ := except_bind_eq_ok.mp htyped
        cases htyped
        show inner.numbers = _
        rw [Syntax.numbers]
        · exact ih hoperand hinner
        · exact hother
      · exact hother
  | path segments span =>
    unfold expr at htyped
    obtain ⟨ty, -, htyped⟩ := except_bind_eq_ok.mp htyped
    cases htyped
    rfl
  | call name args span ih =>
    have hargs := h.mono (List.subset_cons_self _ (Syntax.nodes.nodesOfAll args))
    unfold expr at htyped
    obtain ⟨f, -, htyped⟩ := except_bind_eq_ok.mp htyped
    obtain ⟨typed, hexprs, htyped⟩ := except_bind_eq_ok.mp htyped
    cases htyped
    rw [Syntax.numbers]
    exact ih typed hargs hexprs
  | literal value span =>
    unfold expr at htyped
    rw [numbers_constant htyped, Syntax.numbers]
  | nil =>
    rename_i htyped
    cases htyped
    rfl
  | cons e es ihe ihes =>
    rename_i h htyped
    obtain ⟨hfirst, hmore⟩ := Syntax.Unsigned.head_tail h
    unfold expr.exprs at htyped
    obtain ⟨first, hexpr, htyped⟩ := except_bind_eq_ok.mp htyped
    obtain ⟨more, hexprs, htyped⟩ := except_bind_eq_ok.mp htyped
    cases htyped
    rw [Expr.parts.partsOfAll, List.filterMap_append, Syntax.numbers.numbersOfAll,
      ihes more hmore hexprs]
    exact congrArg (· ++ _) (ihe hfirst hexpr)

end Typing

/-! ## Parsed expressions -/

/-- The whole numbers of an expression are those of a text, and their negation never overflows. -/
structure Syntax.NegatesExactly (source : String) (e : Syntax) : Prop where
  /-- Every whole number is in the range of those that have no sign. -/
  range : ∀ value span n, literal value span ∈ e.nodes → value.whole? = some n →
    0 ≤ n.toInt ∧ n.toInt ≤ Int64.maxValue.toInt
  /-- It is the number that is written at its place. -/
  written : ∀ value span n, literal value span ∈ e.nodes → value.whole? = some n →
    ∃ text, value.token.Spells text ∧ source.toUTF8.extract span.start span.stop = text.toUTF8
  /-- Typing has its result also with checked negations. -/
  checked : ∀ m root, (Typing.checkedExpr m root e).run = some (Typing.expr m root e)
  /-- The numbers of the typed expression are the written ones, with their exact negatives where a
  minus sign is taken in. -/
  exact : ∀ m root typed, Typing.expr m root e = .ok typed → typed.numbers = e.numbers

/-- An expression whose literals are those of a text negates its numbers exactly. -/
theorem Syntax.LiteralsIn.negatesExactly {source : String} {e : Syntax}
    (h : e.LiteralsIn (Lexeme.all source)) : e.NegatesExactly source where
  range value span n hmem hn := ⟨h.unsigned value span n hmem hn, n.toInt_le⟩
  written _ _ _ hmem hn := h.written hmem hn
  checked _ _ := Typing.checkedExpr_eq h.unsigned
  exact _ _ _ htyped := Typing.numbers_expr h.unsigned htyped

/-- Whatever is parsed negates its numbers exactly: the whole numbers of a filter and of the items
of a sort order are written without a sign and fit 64 bits, so no negation of them overflows while
they are typed, and the numbers of what they are typed to are the written ones, negated where a
minus sign stands directly before a literal. -/
theorem Typing.negations_exact (source : String) (limit : Nat) :
    (∀ e, Syntax.parseFilter source limit = .ok e → e.NegatesExactly source) ∧
    ∀ items, OrderItem.parseList source limit = .ok items →
      ∀ item ∈ items, item.expr.NegatesExactly source := by
  constructor
  · intro e h
    exact (Parser.literalsIn_parseFilter h).negatesExactly
  · intro items h item hitem
    exact (Parser.literalsIn_parseList h item hitem).negatesExactly

/-- Of two minus signs before a number in parentheses one is taken in, and the greatest number of 64
bits is negated beside it. A sort order has a negated number of its own. -/
theorem Typing.signed_numbers :
    (∃ e, Syntax.parseFilter "- -(5) add -9223372036854775807L" 64 = .ok e ∧
      e.NegatesExactly "- -(5) add -9223372036854775807L" ∧
      e.numbers = [.whole (-5), .whole (-9223372036854775807)]) ∧
    ∃ item, OrderItem.parseList "-7 desc" 64 = .ok [item] ∧ item.expr.NegatesExactly "-7 desc" := by
  constructor
  · obtain ⟨e, h⟩ : ∃ e, Syntax.parseFilter "- -(5) add -9223372036854775807L" 64 = .ok e :=
      exists_of_isOk (by decide +kernel)
    have hnumbers : (Syntax.parseFilter "- -(5) add -9223372036854775807L" 64).toOption.map
        Syntax.numbers = some [.whole (-5), .whole (-9223372036854775807)] := by
      decide +kernel
    rw [h] at hnumbers
    exact ⟨e, h, (negations_exact _ 64).1 e h, Option.some.inj hnumbers⟩
  · obtain ⟨items, h⟩ : ∃ items, OrderItem.parseList "-7 desc" 64 = .ok items :=
      exists_of_isOk (by decide +kernel)
    have hlength : (OrderItem.parseList "-7 desc" 64).toOption.map List.length = some 1 := by
      decide +kernel
    rw [h] at hlength
    obtain ⟨item, rfl⟩ := List.length_eq_one_iff.mp (Option.some.inj hlength)
    exact ⟨item, h, (negations_exact _ 64).2 [item] h item List.mem_cons_self⟩

end EntityQuery
