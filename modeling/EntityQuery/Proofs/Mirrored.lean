import EntityQuery.Proofs.Acceptance
import EntityQuery.Proofs.WaitingCalls

/-!
# Mirrored equalities

The operands of an equality may be exchanged, unless one of them is a call that waits for the
comparison around it (`Scope.equality_mirrored`). Two runs on the mirrored operands take joins and
parameters in different orders, so neither half is shown by comparing the runs. That one filter is
accepted when the other one is is said of forms, of which two that do not wait can be compared in
either order (`Form.compare?_comm`). That both have one truth value is said of the direct evaluation
of the two expressions (`Expr.truth_mirrored`), which both predicates agree with.
-/

namespace EntityQuery

/-- Whether an expression is a call of `indexof` or of a comparison function. -/
def Expr.isWaitingCall : Expr → Bool
  | call f _ => f.waits
  | _ => false

/-- An expression that is no such call does not wait for a comparison. -/
theorem Expr.waiting?_of_isWaitingCall {e : Expr} (h : e.isWaitingCall = false) :
    e.waiting? = none := by
  cases e with
  | call f args =>
    have hkind := mt Builtin.waits_iff.mpr (Bool.eq_false_iff.mp h)
    rw [not_or] at hkind
    exact Builtin.waiting?_call hkind.1 hkind.2
  | _ => rfl

/-! ## Forms -/

namespace Form

variable {op : RelationalOp} {φ ψ : Form}

/-- Operands that are no predicates can be compared for equality in either order. -/
theorem compareValues?_comm (h : op.isEquality = true) (φ ψ : Form) :
    compareValues? op φ ψ = compareValues? op ψ φ := by
  unfold compareValues?
  cases φ.isNull with
  | true => cases ψ.isNull <;> rfl
  | false =>
    cases ψ.isNull with
    | true => rfl
    | false =>
      -- An equality asks for no order, and for a scalar of each operand.
      rw [h]
      cases φ.scalar? <;> cases ψ.scalar? <;> rfl

/-- No value can be compared with a predicate. -/
theorem compareValues?_predicate (op : RelationalOp) (ty : EdmType) :
    compareValues? op (value ty) predicate = none := by
  -- The checks for an order come first; then the predicate has no scalar.
  refine Option.bind_eq_none_iff.mpr fun _ _ => ?_
  exact Option.bind_eq_none_iff.mpr fun _ _ => rfl

/-- Operands that do not wait can be compared for equality in either order. -/
theorem compare?_comm (h : op.isEquality = true) (hφ : φ.waits = false) (hψ : ψ.waits = false) :
    compare? op φ ψ = compare? op ψ φ := by
  cases φ with
  | position | comparison => cases hφ
  | predicate =>
    cases ψ with
    | position | comparison => cases hψ
    | predicate => rfl
    | literal v ty => rfl
    | value ty => exact (compareValues?_predicate op ty).symm
  | value ty =>
    cases ψ with
    | position | comparison => cases hψ
    | predicate => exact compareValues?_predicate op ty
    | literal v ty' => exact compareValues?_comm h (value ty) (literal v ty')
    | value ty' => exact compareValues?_comm h (value ty) (value ty')
  | literal v ty =>
    cases ψ with
    | position | comparison => cases hψ
    | predicate => rfl
    | literal v' ty' => exact compareValues?_comm h (literal v ty) (literal v' ty')
    | value ty' => exact compareValues?_comm h (literal v ty) (value ty')

/-- A check comes to a form that does not wait, if to any. -/
def NeverWaits (x : Option Form) : Prop := ∀ form, x = some form → form.waits = false

/-- A form that does not wait is one. -/
theorem NeverWaits.some (h : φ.waits = false) : NeverWaits (some φ) := by
  rintro _ ⟨⟩
  exact h

/-- Only the end of a check matters. -/
theorem NeverWaits.bind {α : Type} {x : Option α} {f : α → Option Form}
    (h : ∀ a, NeverWaits (f a)) : NeverWaits (x.bind f) := by
  intro form hform
  obtain ⟨a, -, ha⟩ := Option.bind_eq_some_iff.mp hform
  exact h a form ha

/-- A call of a function that does not wait has a form that does not wait. -/
theorem neverWaits_call? {f : Builtin} (h : f.waits = false) (args : List Form) :
    NeverWaits (call? f args) := by
  have hkind := mt Builtin.waits_iff.mpr (Bool.eq_false_iff.mp h)
  unfold call?
  split
  next =>
    split
    next => exact .bind fun _ => .some rfl
    next => exact .bind fun _ => .bind fun _ => .some rfl
    next hcomparison _ => exact absurd (.inr hcomparison) hkind
    next hindex _ => exact absurd (.inl hindex) hkind
    next => rintro _ ⟨⟩
  next => rintro _ ⟨⟩

end Form

namespace Scope

variable {s : Scope} {op : RelationalOp} {a b : Expr}

/-- The form of an expression does not wait unless the expression is a call of a function that
does. -/
theorem neverWaits_form? {e : Expr} (h : e.isWaitingCall = false) (depth : Nat) :
    Form.NeverWaits (s.form? depth e) := by
  unfold form?
  split
  next => rintro _ ⟨⟩
  next =>
    cases e with
    | constant value ty => exact .some rfl
    | property path ty => exact .bind fun _ => .some rfl
    | call f args => exact .bind fun forms => Form.neverWaits_call? h forms
    | unary op operand => cases op <;> exact .bind fun _ => .bind fun _ => .some rfl
    | arithmetic op left right | logical op left right =>
      exact .bind fun _ => .bind fun _ => .bind fun _ => .bind fun _ => .some rfl
    | relational op left right => exact .bind fun _ => .bind fun _ => .bind fun _ => .some rfl

/-- Mirrored equalities have the same form. -/
theorem form?_mirrored (hop : op.isEquality = true) (ha : a.isWaitingCall = false)
    (hb : b.isWaitingCall = false) (depth : Nat) :
    s.form? depth (.relational op a b) = s.form? depth (.relational op b a) := by
  unfold form?
  split
  next => rfl
  next =>
    dsimp only
    cases hleft : s.form? (depth + 1) a with
    | none => cases s.form? (depth + 1) b <;> rfl
    | some φ =>
      cases hright : s.form? (depth + 1) b with
      | none => rfl
      | some ψ =>
        have hφ := neverWaits_form? ha _ φ hleft
        have hψ := neverWaits_form? hb _ ψ hright
        have hcompare := Form.compare?_comm hop hφ hψ
        show ((Form.compare? op φ ψ).bind _) = ((Form.compare? op ψ φ).bind _)
        rw [hcompare]

end Scope

/-! ## Truth values -/

section

variable {V : Type} {s : Scope} {I : Interpretation V} {op : RelationalOp} {a b : Expr}

/-- A Boolean literal is no condition. -/
theorem Expr.bool?_of_isCondition {e : Expr} (h : e.isCondition = true) : e.bool? = none := by
  cases e with
  | constant => cases h
  | _ => rfl

/-- Comparisons of mirrored operands of which neither is a condition or waits have one truth value
when the comparison of their values is symmetric. -/
theorem Expr.comparison_mirrored (ha : a.waiting? = none) (hb : b.waiting? = none)
    (hsymm : ∀ x y, I.compare op x y = I.compare op y x) :
    comparison s I op a b = comparison s I op b a := by
  rw [comparison_of_waiting? ha, comparison_of_waiting? hb]
  cases a.isNull with
  | true => cases b.isNull <;> rfl
  | false =>
    cases b.isNull with
    | true => rfl
    | false =>
      cases a.value s I with
      | none => cases b.value s I <;> rfl
      | some x =>
        cases b.value s I with
        | none => rfl
        | some y => exact congrArg some (hsymm x y)

/-- Comparisons of mirrored operands have one truth value. -/
theorem Expr.truth_mirrored (ha : a.waiting? = none) (hb : b.waiting? = none)
    (hsymm : ∀ x y, I.compare op x y = I.compare op y x) :
    (relational op a b).truth s I = (relational op b a).truth s I := by
  unfold Expr.truth
  cases hleft : a.isCondition with
  | false =>
    cases hright : b.isCondition with
    | false => exact comparison_mirrored ha hb hsymm
    | true => cases a.bool? <;> cases b.truth s I <;> rfl
  | true =>
    cases hright : b.isCondition with
    | false => cases a.truth s I <;> cases b.bool? <;> rfl
    | true =>
      -- Neither condition is a Boolean literal.
      rw [bool?_of_isCondition hleft, bool?_of_isCondition hright]
      cases a.truth s I <;> cases b.truth s I <;> rfl

end

/-! ## Filters -/

/-- The operands of an equality of which neither is a call that waits can be exchanged. The filter
is accepted exactly when the mirrored one is. The two predicates, each with its own joins and
parameters, then have the same truth value, whatever the columns and functions are, as long as the
equality of values is symmetric. -/
theorem Scope.equality_mirrored (s : Scope) {op : RelationalOp} {a b : Expr}
    (hop : op.isEquality = true) (ha : a.isWaitingCall = false) (hb : b.isWaitingCall = false) :
    ((∃ f, s.compileFilter (.relational op a b) = .ok f) ↔
      ∃ g, s.compileFilter (.relational op b a) = .ok g) ∧
    ∀ f g, s.compileFilter (.relational op a b) = .ok f →
      s.compileFilter (.relational op b a) = .ok g →
      ∀ {V : Type} (I : Interpretation V), (∀ x y, I.compare op x y = I.compare op y x) →
        ∃ v, f.predicate.eval I (environment s.config.rootAlias? f.joins f.parameters) = some v ∧
          g.predicate.eval I (environment s.config.rootAlias? g.joins g.parameters) = some v := by
  refine ⟨?_, ?_⟩
  · rw [compileFilter_accepts_iff, compileFilter_accepts_iff, form?_mirrored hop ha hb]
  · intro f g hf hg V I hsymm
    obtain ⟨t, hrun, hjoins, hparameters⟩ := compileFilter_ok hf
    obtain ⟨t', hrun', hjoins', hparameters'⟩ := compileFilter_ok hg
    obtain ⟨v, hv, htruth⟩ := condition_means I (Sound.empty s) hrun
    obtain ⟨v', hv', htruth'⟩ := condition_means I (Sound.empty s) hrun'
    have hmirrored := Expr.truth_mirrored (s := s) (I := I)
      (Expr.waiting?_of_isWaitingCall ha) (Expr.waiting?_of_isWaitingCall hb) hsymm
    rw [htruth, htruth'] at hmirrored
    cases hmirrored
    rw [hjoins, hparameters, hjoins', hparameters']
    exact ⟨v, hv, hv'⟩

namespace Shop

/-- The total of an order with five added. -/
def raisedTotal : Expr :=
  .arithmetic .add (.property ["orders", "total"] .decimal) (.constant (.int32 5) .int32)

/-- The quantity of an item times three. -/
def tripleQuantity : Expr :=
  .arithmetic .mul (.property ["orders", "items", "quantity"] .int32) (.constant (.int32 3) .int32)

/-- The orders and their items. -/
def itemJoins : JoinPlan :=
  ⟨[⟨["orders"], none, "orders", "orders_alias", "Order"⟩,
    ⟨["orders", "items"], some "orders_alias", "items", "orders_items_alias", "Item"⟩]⟩

/-- What it is compiled to that the total and the quantity differ. The operands bind their numbers
in the order in which they stand. -/
theorem raisedTotal_ok :
    customers.compileFilter (.relational .ne raisedTotal tripleQuantity) = .ok
      ⟨.compare .ne (.arithmetic .add (.column (some "orders_alias") "total") (.parameter "p0"))
        (.arithmetic .mul (.column (some "orders_items_alias") "quantity") (.parameter "p1")),
        itemJoins, ⟨[("p0", .int32 5), ("p1", .int32 3)]⟩⟩ := rfl

/-- The interpretation by distances in which two values are equal when they are the same. -/
def exactDistances : Interpretation Nat where
  __ := distances
  compare
    | .eq, x, y => x == y
    | .ne, x, y => x != y
    | _, x, y => y.blt x

/-- That the quantity and the total differ is compiled as well, with the numbers the other way
around, and is as true. -/
theorem raisedTotal_mirrored :
    ∃ f g, customers.compileFilter (.relational .ne raisedTotal tripleQuantity) = .ok f ∧
      customers.compileFilter (.relational .ne tripleQuantity raisedTotal) = .ok g ∧
      f.parameters.get? "p0" = some (.int32 5) ∧ g.parameters.get? "p0" = some (.int32 3) ∧
      ∃ v, f.predicate.eval exactDistances (environment none f.joins f.parameters) = some v ∧
        g.predicate.eval exactDistances (environment none g.joins g.parameters) = some v := by
  have hop : RelationalOp.isEquality .ne = true := rfl
  have hoperands : raisedTotal.isWaitingCall = false ∧ tripleQuantity.isWaitingCall = false :=
    ⟨rfl, rfl⟩
  obtain ⟨haccepted, hsame⟩ := customers.equality_mirrored hop hoperands.1 hoperands.2
  obtain ⟨g, hg⟩ := haccepted.mp ⟨_, raisedTotal_ok⟩
  refine ⟨_, g, raisedTotal_ok, hg, rfl, ?_, ?_⟩
  · have hfirst : ((customers.compileFilter (.relational .ne tripleQuantity raisedTotal)).toOption
        |>.bind fun g => g.parameters.get? "p0") = some (.int32 3) := rfl
    rw [hg] at hfirst
    exact hfirst
  · exact hsame _ g raisedTotal_ok hg exactDistances fun x y => bne_comm

end Shop

end EntityQuery
