import EntityQuery.Proofs.Evaluation

/-!
# What compiled things mean

When a fragment stands for an expression, and what an expression was compiled to means it
(`Compiled.Means`). The meaning is kept when the session grows, since an environment that translates
more changes nothing that is emitted already (`Compiled.Means.extends`). A fragment that is lowered
goes on to mean its expression (`Fragment.Means.toScalar`, `Fragment.Means.toPredicate`): a literal
by the value that was bound just now, and a Boolean value by the comparison with `true`. What a call
is compiled to means the call (`Builtin.Compiles.means`), with the wildcards of its needle and the
points in time among its operands.
-/

open Relation (ReflTransGen)

namespace EntityQuery

section

variable {V : Type} (s : Scope) (I : Interpretation V) (env : Environment)

/-- A scalar has the value of an expression. -/
def Scalar.Means (scalar : Scalar) (e : Expr) : Prop :=
  ∃ x, scalar.eval I env = some x ∧ e.value s I = some x

/-- Scalars have the values of expressions. -/
def Scalar.AllMean (scalars : List Scalar) (es : List Expr) : Prop :=
  ∃ xs, Scalar.eval.evalAll I env scalars = some xs ∧ Expr.value.values s I es = some xs

/-- A predicate has the truth value of an expression. -/
def Predicate.Means (p : Predicate) (e : Expr) : Prop :=
  ∃ b, p.eval I env = some b ∧ e.truth s I = some b

/-- An expression has to be computed: it is no literal, no condition, and no call that waits for a
comparison. -/
structure Expr.IsComputed (e : Expr) : Prop where
  /-- It is no literal. -/
  literal? : e.literal? = none
  /-- It is no condition. -/
  isCondition : e.isCondition = false
  /-- It does not wait for a comparison. -/
  waiting? : e.waiting? = none

/-- A fragment stands for an expression. -/
def Fragment.Means (e : Expr) : Fragment → Prop
  | .predicate p => e.isCondition = true ∧ p.Means s I env e
  | .value scalar _ => e.IsComputed ∧ scalar.Means s I env e
  | .literal v ty => e = .constant v ty
  | .deferred _ => e.waiting? ≠ none

/-- What an expression was compiled to means the expression. -/
def Compiled.Means (e : Expr) : Compiled → Prop
  | .complete f => e.waiting? = none ∧ f.Means s I env e
  | .pending (.indexOf haystack needle) =>
    ∃ first second, e.waiting? = some (.indexOf, first, second) ∧
      haystack.Means s I env first ∧ needle.Means s I env second
  | .pending (.comparison f left right) =>
    f ≠ .indexOf ∧ ∃ first second, e.waiting? = some (f, first, second) ∧
      left.Means s I env (first.asOperand f) ∧ right.Means s I env (second.asOperand f)

end

section

variable {V : Type} {s : Scope} {I : Interpretation V} {env env' : Environment} {e : Expr}

/-! ## Expressions by their form -/

namespace Expr

/-- A call that waits for a comparison is no condition. -/
theorem isCondition_of_waiting? (h : e.waiting? ≠ none) : e.isCondition = false := by
  unfold waiting? at h
  split at h
  next f first second =>
    split at h
    next hkind =>
      show (f.kind == .patternMatch) = false
      rcases hkind with hkind | hkind <;> rw [hkind] <;> rfl
    next => exact absurd rfl h
  next => exact absurd rfl h

/-- A call that waits for a comparison is no literal. -/
theorem literal?_of_waiting? (h : e.waiting? ≠ none) : e.literal? = none := by
  cases e with
  | constant => exact absurd rfl h
  | _ => rfl

/-- A condition is no literal. -/
theorem literal?_of_isCondition (h : e.isCondition = true) : e.literal? = none := by
  cases e with
  | constant => cases h
  | _ => rfl

/-- What is no literal is not `null`. -/
theorem isNull_of_literal? (h : e.literal? = none) : e.isNull = false := by
  cases e with
  | constant => cases h
  | _ => rfl

/-- What is no literal is looked for as it is. -/
theorem asPattern_of_literal? (f : Builtin) (h : e.literal? = none) : e.asPattern f = e := by
  cases e with
  | constant => cases h
  | _ => rfl

/-- What is no literal is compared as it is. -/
theorem asOperand_of_literal? (f : Builtin) (h : e.literal? = none) : e.asOperand f = e := by
  cases e with
  | constant => cases h
  | _ => rfl

/-- An expression that is computed is true when its value equals `true`. -/
theorem IsComputed.truth (h : e.IsComputed) :
    e.truth s I = (e.value s I).map fun x => I.compare .eq x (I.literal (.bool true)) := by
  cases e with
  | constant => cases h.literal?
  | logical | relational => cases h.isCondition
  | unary op operand =>
    cases op with
    | negate => rfl
    | not => cases h.isCondition
  | call f args =>
    have hkind : (f.kind == .patternMatch) = false := h.isCondition
    rw [beq_eq_false_iff_ne] at hkind
    exact if_neg hkind
  | arithmetic | property => rfl

/-- A comparison of expressions that are no conditions. -/
theorem truth_relational {op : RelationalOp} {left right : Expr} (hleft : left.isCondition = false)
    (hright : right.isCondition = false) :
    (relational op left right).truth s I = comparison s I op left right := by
  unfold Expr.truth
  rw [hleft, hright]
  rfl

end Expr

/-! ## Literals -/

/-- A fragment is a literal when an expression is one, and then the same. -/
def Fragment.LiteralOf (e : Expr) : Fragment → Prop
  | .literal v ty => e = .constant v ty
  | _ => e.literal? = none

namespace Fragment.LiteralOf

variable {f : Fragment}

/-- The fragment is `null` when the expression is. -/
theorem isNull (h : f.LiteralOf e) : e.isNull = f.isNull := by
  cases f with
  | literal v ty =>
    obtain rfl : e = .constant v ty := h
    cases v with
    | null => rfl
    | _ => rfl
  | _ => exact Expr.isNull_of_literal? h

/-- The expression is zero when the fragment is. -/
theorem isZero (h : f.LiteralOf e) (hzero : f.isZero = true) : e.isZero = true := by
  cases f with
  | literal v ty =>
    obtain rfl : e = .constant v ty := h
    cases v with
    | int32 n => exact hzero
    | int64 n => exact hzero
    | _ => cases hzero
  | _ => cases hzero

/-- The expression is a Boolean literal when the fragment is. -/
theorem bool? {v : Bool} (h : f.LiteralOf e) (hbool : f.bool? = some v) :
    ∃ ty, e = .constant (.bool v) ty := by
  cases f with
  | literal v' ty =>
    cases v' with
    | bool =>
      cases hbool
      exact ⟨ty, h⟩
    | _ => cases hbool
  | _ => cases hbool

/-- Of a needle that is no literal the pattern is the needle, and of a literal it is one. -/
theorem asPattern (g : Builtin) (h : f.LiteralOf e) :
    (f.asPattern g = f ∧ e.asPattern g = e) ∨
      ∃ v ty, f.asPattern g = .literal v ty ∧ e.asPattern g = .constant v ty := by
  cases f with
  | literal v ty =>
    obtain rfl : e = .constant v ty := h
    cases v with
    | string text => exact .inr ⟨_, _, rfl, rfl⟩
    | _ => exact .inl ⟨rfl, rfl⟩
  | _ => exact .inl ⟨rfl, Expr.asPattern_of_literal? g h⟩

/-- An argument that is no literal is compared as it is, and a literal as a literal. -/
theorem operand (g : Builtin) (h : f.LiteralOf e) :
    (g.operand f = f ∧ e.asOperand g = e) ∨
      ∃ v ty, g.operand f = .literal v ty ∧ e.asOperand g = .constant v ty := by
  have hother : g ≠ .dateTimeCompare → g.operand f = f := by
    intro hg
    cases g with
    | dateTimeCompare => exact absurd rfl hg
    | _ => rfl
  cases f with
  | literal v ty =>
    obtain rfl : e = .constant v ty := h
    by_cases hg : g = .dateTimeCompare
    · rw [hg]
      cases v with
      | string text => exact .inr ⟨_, _, rfl, rfl⟩
      | _ => exact .inl ⟨rfl, rfl⟩
    · rw [hother hg]
      cases v with
      | string text => exact .inl ⟨rfl, congrArg _ (if_neg hg)⟩
      | _ => exact .inl ⟨rfl, rfl⟩
  | _ =>
    rw [Expr.asOperand_of_literal? g h]
    by_cases hg : g = .dateTimeCompare
    · rw [hg]
      exact .inl ⟨rfl, rfl⟩
    · exact .inl ⟨hother hg, rfl⟩

end Fragment.LiteralOf

/-! ## Fragments -/

/-- A scalar goes on to mean an expression in an environment that translates more. -/
theorem Scalar.Means.extends {scalar : Scalar} (h : scalar.Means s I env e)
    (henv : env.Extends env') : scalar.Means s I env' e := by
  obtain ⟨x, hx, he⟩ := h
  exact ⟨x, Scalar.eval_extends henv hx, he⟩

/-- A predicate goes on to mean an expression in an environment that translates more. -/
theorem Predicate.Means.extends {p : Predicate} (h : p.Means s I env e)
    (henv : env.Extends env') : p.Means s I env' e := by
  obtain ⟨b, hb, he⟩ := h
  exact ⟨b, Predicate.eval_extends henv hb, he⟩

namespace Fragment

variable {f : Fragment}

/-- A fragment goes on to mean an expression in an environment that translates more. -/
theorem Means.extends (h : f.Means s I env e) (henv : env.Extends env') :
    f.Means s I env' e := by
  cases f with
  | predicate p => exact ⟨h.1, h.2.extends henv⟩
  | value scalar ty => exact ⟨h.1, h.2.extends henv⟩
  | literal v ty => exact h
  | deferred g => exact h

/-- A fragment that is no predicate stands for an expression that is no condition. -/
theorem Means.isCondition (h : f.Means s I env e) (hf : ∀ p, f ≠ .predicate p) :
    e.isCondition = false := by
  cases f with
  | predicate p => exact absurd rfl (hf p)
  | value scalar ty => exact h.1.isCondition
  | literal v ty =>
    obtain rfl : e = .constant v ty := h
    rfl
  | deferred g => exact Expr.isCondition_of_waiting? h

/-- A fragment that stands for an expression is a literal when that is one. -/
theorem Means.literalOf (h : f.Means s I env e) : f.LiteralOf e := by
  cases f with
  | predicate p => exact Expr.literal?_of_isCondition h.1
  | value scalar ty => exact h.1.literal?
  | literal v ty => exact h
  | deferred g => exact Expr.literal?_of_waiting? h

/-- A fragment is `null` when the expression is. -/
theorem Means.isNull (h : f.Means s I env e) : e.isNull = f.isNull := h.literalOf.isNull

/-- A fragment that is zero stands for the literal zero. -/
theorem Means.isZero (h : f.Means s I env e) (hzero : f.isZero = true) : e.isZero = true :=
  h.literalOf.isZero hzero

/-- A fragment that is a Boolean literal stands for this literal. -/
theorem Means.bool? {v : Bool} (h : f.Means s I env e) (hbool : f.bool? = some v) :
    e.bool? = some v := by
  obtain ⟨ty, rfl⟩ := h.literalOf.bool? hbool
  rfl

/-- A needle becomes the pattern of the expression that it stands for. -/
theorem Means.asPattern (g : Builtin) (h : f.Means s I env e) :
    (f.asPattern g).Means s I env (e.asPattern g) := by
  rcases h.literalOf.asPattern g with ⟨hf, he⟩ | ⟨v, ty, hf, he⟩
  · rw [hf, he]
    exact h
  · rw [hf]
    exact he

/-- An argument of a comparison function becomes what is compared of the expression that it stands
for. -/
theorem Means.operand (g : Builtin) (h : f.Means s I env e) :
    (g.operand f).Means s I env (e.asOperand g) := by
  rcases h.literalOf.operand g with ⟨hf, he⟩ | ⟨v, ty, hf, he⟩
  · rw [hf, he]
    exact h
  · rw [hf]
    exact he

end Fragment

namespace Compiled

variable {compiled : Compiled}

/-- What an expression was compiled to goes on to mean it in an environment that translates
more. -/
theorem Means.extends (h : compiled.Means s I env e) (henv : env.Extends env') :
    compiled.Means s I env' e := by
  cases compiled with
  | complete f => exact ⟨h.1, h.2.extends henv⟩
  | pending pending =>
    cases pending with
    | indexOf haystack needle =>
      obtain ⟨first, second, hwaiting, hfirst, hsecond⟩ := h
      exact ⟨first, second, hwaiting, hfirst.extends henv, hsecond.extends henv⟩
    | comparison f left right =>
      obtain ⟨hf, first, second, hwaiting, hfirst, hsecond⟩ := h
      exact ⟨hf, first, second, hwaiting, hfirst.extends henv, hsecond.extends henv⟩

/-- What is left of a compiled expression stands for the expression. -/
theorem Means.fragment (h : compiled.Means s I env e) : compiled.fragment.Means s I env e := by
  cases compiled with
  | complete f => exact h.2
  | pending pending =>
    show e.waiting? ≠ none
    cases pending with
    | indexOf haystack needle =>
      obtain ⟨first, second, hwaiting, -⟩ := h
      rw [hwaiting]
      rintro ⟨⟩
    | comparison f left right =>
      obtain ⟨-, first, second, hwaiting, -⟩ := h
      rw [hwaiting]
      rintro ⟨⟩

end Compiled

/-- The haystack and the needle of fragments stand for those of the expressions. -/
theorem Builtin.haystackFirst_means {α β : Type} {R : α → β → Prop} (f : Builtin) {a b : α}
    {a' b' : β} (ha : R a a') (hb : R b b') :
    R (f.haystackFirst a b).1 (f.haystackFirst a' b').1 ∧
      R (f.haystackFirst a b).2 (f.haystackFirst a' b').2 := by
  cases f with
  | substringOf => exact ⟨hb, ha⟩
  | _ => exact ⟨ha, hb⟩

/-! ## Lowering -/

variable {joins : JoinPlan} {b b' : Binding}

/-- The environment of the same joins and more parameters translates more. -/
theorem Session.environment_extends_binding (joins : JoinPlan)
    (h : ReflTransGen (Binding.Adds s.config) b b') :
    (Session.environment s ⟨joins, b⟩).Extends (Session.environment s ⟨joins, b'⟩) :=
  Session.environment_extends (Session.grows_binding joins h)

namespace Fragment

variable {f : Fragment}

/-- What a fragment is bound to when it is lowered to a scalar is translated in addition. -/
theorem extends_of_toScalar {scalar : Scalar} (joins : JoinPlan)
    (h : f.toScalar s.config b = .ok scalar b') :
    (Session.environment s ⟨joins, b⟩).Extends (Session.environment s ⟨joins, b'⟩) :=
  Session.environment_extends_binding joins ((toScalar_binds _ _).moves.ok h)

/-- What a fragment is bound to when it is lowered to a predicate is translated in addition. -/
theorem extends_of_toPredicate {p : Predicate} (joins : JoinPlan)
    (h : f.toPredicate s.config b = .ok p b') :
    (Session.environment s ⟨joins, b⟩).Extends (Session.environment s ⟨joins, b'⟩) :=
  Session.environment_extends_binding joins ((toPredicate_binds _ _).moves.ok h)

/-- The scalar that a fragment is lowered to has the value of the expression. -/
theorem Means.toScalar {scalar : Scalar} (h : f.Means s I (Session.environment s ⟨joins, b⟩) e)
    (hscalar : f.toScalar s.config b = .ok scalar b') :
    scalar.Means s I (Session.environment s ⟨joins, b'⟩) e := by
  rcases toScalar_ok.mp hscalar with ⟨ty, rfl, rfl⟩ | ⟨v, ty, w, rfl, hw, rfl, rfl⟩
  · exact h.2
  · -- The literal was bound just now, to its normal form.
    obtain rfl : e = .constant v ty := h
    refine ⟨I.literal w, Option.map_eq_some_iff.mpr ⟨w, Binding.get?_push _ b w, rfl⟩, ?_⟩
    show (v.normalize ty).toOption.map I.literal = some (I.literal w)
    rw [hw]
    rfl

/-- The scalars that fragments are lowered to have the values of the expressions. -/
theorem allMean_of_toScalars {es : List Expr} {fs : List Fragment} {scalars : List Scalar}
    (h : List.Forall₂ (Fragment.Means s I env) es fs)
    (henv : env.Extends (Session.environment s ⟨joins, b⟩))
    (hscalars : toScalars s.config fs b = .ok scalars b') :
    Scalar.AllMean s I (Session.environment s ⟨joins, b'⟩) scalars es := by
  induction h generalizing b scalars with
  | nil =>
    obtain ⟨rfl, rfl⟩ := pure_eq_ok.mp hscalars
    exact ⟨[], rfl, rfl⟩
  | cons hmeans _ ih =>
    obtain ⟨scalar, rest, b₁, hscalar, hrest, rfl⟩ := toScalars_cons_ok.mp hscalars
    -- What is bound for the first one is there for the others, and the other way around.
    have henv₁ := Fragment.extends_of_toScalar joins hscalar
    have henv₂ := Session.environment_extends_binding joins ((toScalars_binds _ _).moves.ok hrest)
    obtain ⟨x, hx, hex⟩ := ((hmeans.extends henv).toScalar hscalar).extends henv₂
    obtain ⟨xs, hxs, hexs⟩ := ih (henv.trans henv₁) hrest
    refine ⟨x :: xs, ?_, ?_⟩
    · rw [Scalar.eval.evalAll, hx, hxs]
      rfl
    · rw [Expr.value.values, hex, hexs]
      rfl

/-- The predicate that a fragment is lowered to has the truth value of the expression. -/
theorem Means.toPredicate {p : Predicate} (h : f.Means s I (Session.environment s ⟨joins, b⟩) e)
    (hp : f.toPredicate s.config b = .ok p b') :
    p.Means s I (Session.environment s ⟨joins, b'⟩) e := by
  have henv := Fragment.extends_of_toPredicate joins hp
  rcases toPredicate_ok hp with ⟨rfl, rfl⟩ | ⟨v, ty, rfl, rfl, rfl⟩ | ⟨scalar, rfl, rfl, rfl⟩
  · exact h.2
  · obtain rfl : e = .constant (.bool v) ty := h
    exact ⟨v, rfl, rfl⟩
  · -- A Boolean value is compared with the `true` that was bound just now.
    obtain ⟨x, hx, hex⟩ := h.2.extends henv
    refine ⟨I.compare .eq x (I.literal (.bool true)), ?_, ?_⟩
    · have htrue : Scalar.eval I (Session.environment s ⟨joins, b.push s.config (.bool true)⟩)
          (.parameter (b.nextName s.config)) = some (I.literal (.bool true)) :=
        Option.map_eq_some_iff.mpr ⟨_, Binding.get?_push _ b _, rfl⟩
      rw [Predicate.eval, hx, htrue]
      rfl
    · rw [h.1.truth, hex]
      rfl

end Fragment

/-! ## Calls -/

namespace Builtin

variable {f : Builtin}

/-- The only function of its kind is `indexof`. -/
theorem eq_indexOf_of_kind (h : f.kind = .indexOf) : f = .indexOf := by
  cases f with
  | indexOf => rfl
  | _ => cases h

/-- A call of a function that does not wait for a comparison does not wait for one. -/
theorem waiting?_call {args : List Expr} (hindex : f.kind ≠ .indexOf)
    (hcomparison : f.kind ≠ .opaqueComparison) : (Expr.call f args).waiting? = none := by
  unfold Expr.waiting?
  split
  next g first second heq =>
    cases heq
    exact if_neg (not_or.mpr ⟨hindex, hcomparison⟩)
  next => rfl

/-- What a call is compiled to means the call, when the fragments of its arguments stand for
these. -/
theorem Compiles.means {args : List Expr} {fragments : List Fragment} {compiled : Compiled}
    (h : f.Compiles s.config fragments b compiled b')
    (hargs : List.Forall₂ (Fragment.Means s I (Session.environment s ⟨joins, b⟩)) args fragments) :
    compiled.Means s I (Session.environment s ⟨joins, b'⟩) (.call f args) := by
  cases h with
  | function hkind _ hscalars =>
    have hwaiting : (Expr.call f args).waiting? = none := by
      apply waiting?_call <;> rw [hkind] <;> intro h <;> cases h
    have hcondition : (Expr.call f args).isCondition = false := by
      show (f.kind == .patternMatch) = false
      rw [hkind]
      rfl
    obtain ⟨xs, hxs, hexs⟩ := Fragment.allMean_of_toScalars hargs (.refl _) hscalars
    refine ⟨hwaiting, ⟨rfl, hcondition, hwaiting⟩, I.call f xs, ?_, ?_⟩
    · rw [Scalar.eval, hxs]
      rfl
    · rw [Expr.value, if_pos hkind, hexs]
      rfl
  | pattern hkind hvalue hpattern =>
    have hwaiting : (Expr.call f args).waiting? = none := by
      apply waiting?_call <;> rw [hkind] <;> intro h <;> cases h
    have hcondition : (Expr.call f args).isCondition = true := by
      show (f.kind == .patternMatch) = true
      rw [hkind]
      rfl
    obtain _ | ⟨hfirst, _ | ⟨hsecond, _ | _⟩⟩ := hargs
    rename_i first second
    obtain ⟨hhaystack, hneedle⟩ := f.haystackFirst_means hfirst hsecond
    -- The haystack is lowered first, and then the needle with its wildcards.
    have henv₁ := Fragment.extends_of_toScalar joins hvalue
    have henv₂ := Fragment.extends_of_toScalar joins hpattern
    obtain ⟨x, hx, hex⟩ := (hhaystack.toScalar hvalue).extends henv₂
    obtain ⟨y, hy, hey⟩ := ((hneedle.extends henv₁).asPattern f).toScalar hpattern
    refine ⟨hwaiting, hcondition, I.like x y, ?_, ?_⟩
    · rw [Predicate.eval, hx, hy]
      rfl
    · rw [Expr.truth, if_pos hkind, Expr.matching, hex, hey]
      rfl
  | comparison hkind hleft hright =>
    obtain _ | ⟨hfirst, _ | ⟨hsecond, _ | _⟩⟩ := hargs
    rename_i first second
    have henv₁ := Fragment.extends_of_toScalar joins hleft
    have henv₂ := Fragment.extends_of_toScalar joins hright
    refine ⟨?_, first, second, if_pos (.inr hkind), ?_, ?_⟩
    · rintro rfl
      cases hkind
    · exact ((hfirst.operand f).toScalar hleft).extends henv₂
    · exact ((hsecond.extends henv₁).operand f).toScalar hright
  | position hkind hhaystack hneedle =>
    obtain _ | ⟨hfirst, _ | ⟨hsecond, _ | _⟩⟩ := hargs
    rename_i first second
    have henv₁ := Fragment.extends_of_toScalar joins hhaystack
    have henv₂ := Fragment.extends_of_toScalar joins hneedle
    obtain rfl := eq_indexOf_of_kind hkind
    refine ⟨first, second, rfl, ?_, ?_⟩
    · exact (hfirst.toScalar hhaystack).extends henv₂
    · exact (hsecond.extends henv₁).toScalar hneedle

end Builtin

end

end EntityQuery
