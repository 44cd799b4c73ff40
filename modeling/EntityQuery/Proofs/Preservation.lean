import EntityQuery.Proofs.Meaning
import EntityQuery.Sample.Orders

/-!
# Compiled filters mean what the expressions mean

What a comparison is compiled to means the comparison (`Scope.Compares.means`), rule by rule: a call
that waits takes the comparison into itself, a predicate is kept or negated by a Boolean literal, an
equality with `null` is a test, and all else is compared as values. The nodes of an expression are
put together by the induction over what was compiled (`Scope.visit_means`). A property has the alias
that sound joins read back to its navigations; no other node depends on the joins.
-/

open Relation (ReflTransGen)

namespace EntityQuery

section

variable {V : Type} {s : Scope} {I : Interpretation V} {env env' : Environment} {e : Expr}
  {joins : JoinPlan} {b b' : Binding}

/-! ## Comparisons -/

namespace Expr

variable {op : RelationalOp} {left right first second : Expr} {x y z : V}

/-- A comparison of a position asks for the first characters of what is searched. -/
theorem comparison_indexOf (hwaiting : left.waiting? = some (.indexOf, first, second))
    (hx : first.value s I = some x) (hy : second.value s I = some y)
    (hz : right.value s I = some z) :
    comparison s I op left right = op.equality? (I.compare .eq
      (I.call .substring [x, I.constant 0, I.arithmetic .add z (I.constant 1)]) y) := by
  unfold comparison
  rw [hwaiting]
  dsimp only
  rw [if_pos rfl, hx, hy, hz]
  rfl

/-- A comparison of a comparison function with zero compares its arguments. -/
theorem comparison_zero {f : Builtin} (hf : f ≠ .indexOf)
    (hwaiting : left.waiting? = some (f, first, second)) (hzero : right.isZero = true)
    (hx : (first.asOperand f).value s I = some x) (hy : (second.asOperand f).value s I = some y) :
    comparison s I op left right =
      some (if op = .ne then !I.compare .eq x y else I.compare op x y) := by
  unfold comparison
  rw [hwaiting]
  dsimp only
  rw [if_neg hf, if_pos hzero, hx, hy]
  rfl

/-- A comparison of an expression that does not wait for one goes by what is `null`. -/
theorem comparison_of_waiting? (hwaiting : left.waiting? = none) :
    comparison s I op left right =
      match left.isNull, right.isNull with
      | true, true => op.equality? true
      | true, false => (right.value s I).bind fun x => op.equality? (I.isNull x)
      | false, true => (left.value s I).bind fun x => op.equality? (I.isNull x)
      | false, false =>
        (left.value s I).bind fun x => (right.value s I).map fun y => I.compare op x y := by
  unfold comparison
  rw [hwaiting]
  cases left.isNull with
  | true =>
    cases right.isNull with
    | true => rfl
    | false => rfl
  | false =>
    cases right.isNull with
    | true => rfl
    | false =>
      cases left.value s I with
      | none => rfl
      | some x => cases right.value s I <;> rfl

end Expr

namespace RelationalOp

variable {op : RelationalOp}

/-- An equality of truth values asks for the value that it keeps. -/
theorem equality?_beq {v keep : Bool} (h : op.equality? v = some keep) (q : Bool) :
    op.equality? (q == v) = some (q == keep) := by
  cases op with
  | eq =>
    cases h
    rfl
  | ne =>
    cases h
    cases q <;> cases v <;> rfl
  | gt | ge | lt | le => cases h

/-- An equality keeps what is equal when it asks for that. -/
theorem equality?_eq_beq (h : op.isEquality = true) (q : Bool) :
    op.equality? q = some (q == (op == .eq)) := by
  cases op with
  | eq => cases q <;> rfl
  | ne => cases q <;> rfl
  | gt | ge | lt | le => cases h

/-- The test against `null` that an equality is compiled to. -/
theorem eval_nullTest {scalar : Scalar} {x : V} (hx : scalar.eval I env = some x) :
    (if op == .eq then Predicate.isNull scalar else .isNotNull scalar).eval I env =
      some (I.isNull x == (op == .eq)) := by
  cases op == .eq with
  | true =>
    show (scalar.eval I env).map I.isNull = _
    rw [hx]
    simp
  | false =>
    show (scalar.eval I env).map (fun x => !I.isNull x) = _
    rw [hx]
    simp

end RelationalOp

namespace Scope

variable {op : RelationalOp} {right : Fragment} {p : Predicate} {l r : Expr}

/-- A comparison with a waiting call means the comparison. -/
theorem Compares.means_pending {pending : Pending}
    (h : Compares s.config op (.pending pending) right b p b')
    (hleft : (Compiled.pending pending).Means s I (Session.environment s ⟨joins, b⟩) l)
    (hright : right.Means s I (Session.environment s ⟨joins, b⟩) r) :
    p.Means s I (Session.environment s ⟨joins, b'⟩) (.relational op l r) := by
  cases h with
  | position hop hk =>
    obtain ⟨first, second, hwaiting, hhaystack, hneedle⟩ := hleft
    have henv := Fragment.extends_of_toScalar joins hk
    obtain ⟨x, hx, hex⟩ := hhaystack.extends henv
    obtain ⟨y, hy, hey⟩ := hneedle.extends henv
    obtain ⟨z, hz, hez⟩ := hright.toScalar hk
    have hl : l.isCondition = false := Expr.isCondition_of_waiting? (by rw [hwaiting]; rintro ⟨⟩)
    have hr : r.isCondition = false := hright.isCondition fun p hp => by
      rw [hp] at hk
      exact throw_ne_ok hk
    refine ⟨I.compare .eq (I.call .substring
      [x, I.constant 0, I.arithmetic .add z (I.constant 1)]) y == (op == .eq), ?_, ?_⟩
    · rw [Predicate.eval_keepIf]
      simp only [Pending.found, Predicate.eval, Scalar.eval, Scalar.eval.evalAll, hx, hy, hz]
      rfl
    · rw [Expr.truth_relational hl hr, Expr.comparison_indexOf hwaiting hex hey hez,
        RelationalOp.equality?_eq_beq hop]
  | zero hop hzero =>
    obtain ⟨hf, first, second, hwaiting, ⟨x, hx, hex⟩, ⟨y, hy, hey⟩⟩ := hleft
    have hl : l.isCondition = false := Expr.isCondition_of_waiting? (by rw [hwaiting]; rintro ⟨⟩)
    have hr : r.isCondition = false := hright.isCondition fun p hp => by
      rw [hp] at hzero
      cases hzero
    refine ⟨if op = .ne then !I.compare .eq x y else I.compare op x y, ?_, ?_⟩
    · by_cases hne : op = .ne
      · rw [if_pos (beq_iff_eq.mpr hne), if_pos hne, Predicate.eval, Predicate.eval, hx, hy]
        rfl
      · rw [if_neg (by rwa [beq_iff_eq]), if_neg hne, Predicate.eval, hx, hy]
        rfl
    · rw [Expr.truth_relational hl hr,
        Expr.comparison_zero hf hwaiting (hright.isZero hzero) hex hey]

/-- What a comparison is compiled to means the comparison, when what its operands were compiled to
means these. -/
theorem Compares.means {left : Compiled} (h : Compares s.config op left right b p b')
    (hleft : left.Means s I (Session.environment s ⟨joins, b⟩) l)
    (hright : right.Means s I (Session.environment s ⟨joins, b⟩) r) :
    p.Means s I (Session.environment s ⟨joins, b'⟩) (.relational op l r) := by
  -- A fragment that has a scalar is no predicate, and neither is a literal.
  have hscalar : ∀ {f : Fragment} {e : Expr} {b₁ b₂ : Binding} {scalar : Scalar},
      f.Means s I (Session.environment s ⟨joins, b⟩) e →
        f.toScalar s.config b₁ = .ok scalar b₂ → e.isCondition = false := by
    intro f e b₁ b₂ scalar hmeans hf
    apply hmeans.isCondition
    rintro p rfl
    exact throw_ne_ok hf
  have hnull : ∀ {f : Fragment} {e : Expr}, f.Means s I (Session.environment s ⟨joins, b⟩) e →
      f.isNull = true → e.isCondition = false := by
    intro f e hmeans hf
    apply hmeans.isCondition
    rintro p rfl
    cases hf
  cases h with
  | position hop hk => exact (Compares.position hop hk).means_pending hleft hright
  | zero hop hzero => exact (Compares.zero hop hzero).means_pending hleft hright
  | literal hbool hkeep =>
    rename_i v keep
    obtain ⟨-, hcondition, q, hq, heq⟩ := hleft
    refine ⟨q == keep, ?_, ?_⟩
    · rw [Predicate.eval_keepIf, hq]
      rfl
    · rw [Expr.truth, if_pos hcondition, heq, hright.bool? hbool]
      exact RelationalOp.equality?_beq hkeep q
  | literalLeft hbool hkeep =>
    rename_i operand v keep
    obtain ⟨hcondition, q, hq, heq⟩ := hright
    have hl : l.isCondition = false := by
      apply hleft.2.isCondition
      rintro p rfl
      cases hbool
    refine ⟨q == keep, ?_, ?_⟩
    · rw [Predicate.eval_keepIf, hq]
      rfl
    · rw [Expr.truth, hl, hcondition, heq, hleft.2.bool? hbool]
      exact RelationalOp.equality?_beq hkeep q
  | nulls hl hr hop =>
    obtain ⟨hwaiting, hleft⟩ := hleft
    refine ⟨op == .eq, rfl, ?_⟩
    rw [Expr.truth_relational (hnull hleft hl) (hnull hright hr),
      Expr.comparison_of_waiting? hwaiting, hleft.isNull, hl, hright.isNull, hr]
    dsimp only
    rw [RelationalOp.equality?_eq_beq hop, Bool.true_beq]
  | nullRight hl hr hop hx =>
    obtain ⟨hwaiting, hleft⟩ := hleft
    obtain ⟨x, hx', hex⟩ := hleft.toScalar hx
    refine ⟨I.isNull x == (op == .eq), ?_, ?_⟩
    · exact RelationalOp.eval_nullTest hx'
    · rw [Expr.truth_relational (hscalar hleft hx) (hnull hright hr),
        Expr.comparison_of_waiting? hwaiting, hleft.isNull, hl, hright.isNull, hr, hex]
      exact RelationalOp.equality?_eq_beq hop _
  | nullLeft hl hr hop hy =>
    obtain ⟨hwaiting, hleft⟩ := hleft
    obtain ⟨y, hy', hey⟩ := hright.toScalar hy
    refine ⟨I.isNull y == (op == .eq), ?_, ?_⟩
    · exact RelationalOp.eval_nullTest hy'
    · rw [Expr.truth_relational (hnull hleft hl) (hscalar hright hy),
        Expr.comparison_of_waiting? hwaiting, hleft.isNull, hl, hright.isNull, hr, hey]
      exact RelationalOp.equality?_eq_beq hop _
  | values hl hr horder hx hy =>
    obtain ⟨hwaiting, hleft⟩ := hleft
    -- The left scalar is lowered before the right one.
    have henv₁ := Fragment.extends_of_toScalar joins hx
    have henv₂ := Fragment.extends_of_toScalar joins hy
    obtain ⟨x, hx', hex⟩ := (hleft.toScalar hx).extends henv₂
    obtain ⟨y, hy', hey⟩ := (hright.extends henv₁).toScalar hy
    refine ⟨I.compare op x y, ?_, ?_⟩
    · rw [Predicate.eval, hx', hy']
      rfl
    · rw [Expr.truth_relational (hscalar hleft hx) (hscalar hright hy),
        Expr.comparison_of_waiting? hwaiting, hleft.isNull, hl, hright.isNull, hr, hex, hey]
      rfl

end Scope

/-! ## Whole expressions -/

namespace Scope

variable {t t' : Session}

/-- A negated scalar means the negated expression. -/
theorem means_negate {scalar : Scalar} (h : scalar.Means s I env e) :
    (Scalar.negate scalar).Means s I env (.unary .negate e) := by
  obtain ⟨x, hx, hex⟩ := h
  refine ⟨I.negate x, ?_, ?_⟩
  · exact Option.map_eq_some_iff.mpr ⟨x, hx, rfl⟩
  · exact Option.map_eq_some_iff.mpr ⟨x, hex, rfl⟩

/-- A negated predicate means the negated expression. -/
theorem means_not {p : Predicate} (h : p.Means s I env e) :
    (Predicate.not p).Means s I env (.unary .not e) := by
  obtain ⟨b, hb, heb⟩ := h
  refine ⟨!b, ?_, ?_⟩
  · exact Option.map_eq_some_iff.mpr ⟨b, hb, rfl⟩
  · exact Option.map_eq_some_iff.mpr ⟨b, heb, rfl⟩

/-- An operation on scalars means the operation on the expressions. -/
theorem means_arithmetic {x y : Scalar} {left right : Expr} (op : ArithmeticOp)
    (hx : x.Means s I env left) (hy : y.Means s I env right) :
    (Scalar.arithmetic op x y).Means s I env (.arithmetic op left right) := by
  obtain ⟨v, hv, hev⟩ := hx
  obtain ⟨w, hw, hew⟩ := hy
  refine ⟨I.arithmetic op v w, ?_, ?_⟩
  · rw [Scalar.eval, hv]
    show (Scalar.eval I env y).bind _ = _
    rw [hw]
    rfl
  · rw [Expr.value, hev, hew]
    rfl

/-- A connective of predicates means the connective of the expressions. -/
theorem means_connective {p q : Predicate} {left right : Expr} (op : LogicalOp)
    (hp : p.Means s I env left) (hq : q.Means s I env right) :
    (connective op p q).Means s I env (.logical op left right) := by
  obtain ⟨v, hv, hev⟩ := hp
  obtain ⟨w, hw, hew⟩ := hq
  cases op with
  | and =>
    refine ⟨v && w, ?_, ?_⟩
    · rw [connective, Predicate.eval, hv, hw]
      rfl
    · rw [Expr.truth, hev, hew]
      rfl
  | or =>
    refine ⟨v || w, ?_, ?_⟩
    · rw [connective, Predicate.eval, hv, hw]
      rfl
    · rw [Expr.truth, hev, hew]
      rfl

/-- A property is resolved to its column, and sound joins read the alias back to its navigations. -/
theorem column_of_resolveProperty {path : List String} {column : Scalar} {joins' : JoinPlan}
    (hsound : s.Sound joins) (h : s.resolveProperty path joins = .ok column joins') :
    ∃ alias? name, column = .column alias? name ∧ s.columnOf? path = some name ∧
      joins'.navigation? s.config.rootAlias? alias? = some path.dropLast := by
  have hsound' := hsound.grows ((s.resolveProperty_moves path).ok h)
  obtain ⟨last, place, name, hlast, hresolve, hname, rfl⟩ := resolveProperty_ok h
  have hplace := resolve_ok hresolve
  refine ⟨place.alias?, name, rfl, ?_, hsound'.navigation?_place hplace⟩
  unfold columnOf?
  rw [hsound'.walk_place hplace, hlast]
  exact hname

/-- A column means the property that was resolved to it, when the joins are sound. -/
theorem means_of_resolveProperty {path : List String} {ty : EdmType} {column : Scalar}
    {joins' : JoinPlan} (hsound : s.Sound joins)
    (h : s.resolveProperty path joins = .ok column joins') :
    column.Means s I (Session.environment s ⟨joins', b⟩) (.property path ty) := by
  obtain ⟨alias?, name, rfl, hcolumn, hnavigation⟩ := column_of_resolveProperty hsound h
  refine ⟨I.column path.dropLast name, ?_, ?_⟩
  · exact Option.map_eq_some_iff.mpr ⟨path.dropLast, hnavigation, rfl⟩
  · exact Option.map_eq_some_iff.mpr ⟨name, hcolumn, rfl⟩

/-- Whatever an expression is compiled to, from a session with sound joins on, means it in the
session that is reached. -/
theorem visit_means {depth : Nat} {compiled : Compiled} (I : Interpretation V)
    (hsound : s.Sound t.joins) (h : s.visit depth e t = .ok compiled t') :
    compiled.Means s I (t'.environment s) e := by
  have hkeeps : ∀ {t t' : Session}, s.Sound t.joins → ReflTransGen (Session.Adds s) t t' →
      s.Sound t'.joins := fun hsound h => hsound.grows (Session.joins_grow h)
  revert hsound
  refine visit_ok_induct
    (M := fun e t compiled t' => s.Sound t.joins → compiled.Means s I (t'.environment s) e)
    (N := fun es t fragments t' => s.Sound t.joins →
      List.Forall₂ (Fragment.Means s I (t'.environment s)) es fragments)
    ?constant ?property ?call ?negate ?not ?arithmetic ?logical ?relational ?nil ?cons h
  case constant =>
    intro v ty t _ _
    exact ⟨rfl, rfl⟩
  case property =>
    intro path ty t column joins hcolumn _ hsound
    exact ⟨rfl, ⟨rfl, rfl, rfl⟩, means_of_resolveProperty hsound hcolumn⟩
  case call =>
    intro f args t fragments t₁ compiled binding hargs _ hcompiles _ hsound
    exact hcompiles.means (hargs hsound)
  case negate =>
    intro operand t compiled t₁ scalar binding hoperand _ hscalar _ hsound
    have hvalue := (hoperand hsound).fragment.toScalar hscalar
    exact ⟨rfl, ⟨rfl, rfl, rfl⟩, means_negate hvalue⟩
  case not =>
    intro operand t compiled t₁ p binding hoperand _ hp _ hsound
    have htruth := (hoperand hsound).fragment.toPredicate hp
    exact ⟨rfl, rfl, means_not htruth⟩
  case arithmetic =>
    intro op left right t l t₁ r t₂ x b₁ y b₂ hleft hgrows hright hgrows' hx hy _ hsound
    -- Both operands are lowered after both have been compiled.
    have henv := Session.environment_extends hgrows'
    have henv₁ := Fragment.extends_of_toScalar t₂.joins hx
    have henv₂ := Fragment.extends_of_toScalar t₂.joins hy
    have hl := ((hleft hsound).extends henv).fragment.toScalar hx
    have hr := ((hright (hkeeps hsound hgrows)).extends henv₁).fragment.toScalar hy
    exact ⟨rfl, ⟨rfl, rfl, rfl⟩, means_arithmetic op (hl.extends henv₂) hr⟩
  case logical =>
    intro op left right t l t₁ p b₁ r t₂ q b₂ hleft hgrows hp hright hgrows' hq _ hsound
    -- The left operand is lowered before the right one is compiled.
    have hgrows₁ := Session.grows_toPredicate t₁.joins hp
    have henv := Session.environment_extends hgrows'
    have henv₂ := Fragment.extends_of_toPredicate t₂.joins hq
    have hl := (hleft hsound).fragment.toPredicate hp
    have hr := (hright (hkeeps (hkeeps hsound hgrows) hgrows₁)).fragment.toPredicate hq
    exact ⟨rfl, rfl, means_connective op ((hl.extends henv).extends henv₂) hr⟩
  case relational =>
    intro op left right t l t₁ r t₂ p binding hleft hgrows hright hgrows' hcompares _ hsound
    have hl := (hleft hsound).extends (Session.environment_extends hgrows')
    have hr := (hright (hkeeps hsound hgrows)).fragment
    exact ⟨rfl, rfl, hcompares.means hl hr⟩
  case nil =>
    intro t _
    exact .nil
  case cons =>
    intro e es t compiled t₁ fragments t₂ he hgrows hes hgrows' hsound
    have henv := Session.environment_extends hgrows'
    exact .cons ((he hsound).extends henv).fragment (hes (hkeeps hsound hgrows))

/-- The condition that an expression is compiled to has its truth value. -/
theorem condition_means {p : Predicate} (I : Interpretation V) (hsound : s.Sound t.joins)
    (h : s.condition e t = .ok p t') : p.Means s I (t'.environment s) e := by
  obtain ⟨compiled, t₁, binding, hvisit, hp, rfl⟩ := condition_ok.mp h
  exact (visit_means I hsound hvisit).fragment.toPredicate hp

/-- A filter that is compiled means what its expression means: under every interpretation, the
predicate, with its aliases read back to navigations by the joins and its parameters looked up, has
a truth value, and the expression, evaluated directly, has the same. -/
theorem compileFilter_preserves_truth {f : CompiledFilter} (h : s.compileFilter e = .ok f)
    (I : Interpretation V) :
    ∃ b, f.predicate.eval I (environment s.config.rootAlias? f.joins f.parameters) = some b ∧
      e.truth s I = some b := by
  unfold compileFilter at h
  split at h
  next =>
    cases hrun : s.condition e .start with
    | ok p t =>
      rw [hrun] at h
      cases h
      exact condition_means I (Sound.empty s) hrun
    | error =>
      rw [hrun] at h
      cases h
  next => cases h

end Scope

end

/-! ## A filter of the shop -/

namespace Shop

/-- What the condition is compiled to. -/
def largeOrderFilter : CompiledFilter :=
  ⟨.compare .gt (.column (some "orders_alias") "total") (.parameter "p0"),
    ⟨[⟨["orders"], none, "orders", "orders_alias", "Order"⟩]⟩, ⟨[("p0", .int32 5)]⟩⟩

/-- An interpretation in which a column is worth the number of navigations to it. -/
def distances : Interpretation Nat where
  column path _ := path.length
  literal _ := 5
  constant n := n.toNatClampNeg
  call _ xs := xs.foldl Nat.add 0
  arithmetic _ := Nat.add
  negate x := x
  compare _ x y := Nat.blt y x
  like _ _ := true
  isNull _ := false

/-- The filter for customers with a large order means what it says. -/
theorem largeOrder_preserves_truth :
    customers.compileFilter largeOrder = .ok largeOrderFilter ∧
      ∃ b, largeOrderFilter.predicate.eval distances
          (environment none largeOrderFilter.joins largeOrderFilter.parameters) = some b ∧
        largeOrder.truth customers distances = some b := by
  have h : customers.compileFilter largeOrder = .ok largeOrderFilter := rfl
  exact ⟨h, Scope.compileFilter_preserves_truth h distances⟩

end Shop

end EntityQuery
