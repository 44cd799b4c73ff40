import EntityQuery.Proofs.Constants
import EntityQuery.Proofs.TwoRuns
import EntityQuery.Sample.Orders

/-!
# Payloads of literals

No literal influences the predicate that it stands in. Two expressions are `Alike` when they differ
in the payloads of literals at most, each of the same variant and with the same declared type.
Compiling one agrees with compiling the other (`Scope.visit_agree`), so when both succeed the
conditions, the joins and the names of the parameters are the same, and only the values that the
parameters have tell the two apart. What the condition itself holds is no literal
(`Scope.compileFilter_forgets_payloads`).
-/

namespace EntityQuery

mutual

/-- Expressions that differ in the payloads of literals at most. -/
inductive Expr.Alike : Expr → Expr → Prop
  | logical (op : LogicalOp) {left left' right right' : Expr} (hleft : left.Alike left')
      (hright : right.Alike right') : Alike (.logical op left right) (.logical op left' right')
  | arithmetic (op : ArithmeticOp) {left left' right right' : Expr} (hleft : left.Alike left')
      (hright : right.Alike right') :
      Alike (.arithmetic op left right) (.arithmetic op left' right')
  | relational (op : RelationalOp) {left left' right right' : Expr} (hleft : left.Alike left')
      (hright : right.Alike right') :
      Alike (.relational op left right) (.relational op left' right')
  | unary (op : UnaryOp) {operand operand' : Expr} (h : operand.Alike operand') :
      Alike (.unary op operand) (.unary op operand')
  | property (path : List String) (ty : EdmType) : Alike (.property path ty) (.property path ty)
  | call (f : Builtin) {args args' : List Expr} (h : Expr.AllAlike args args') :
      Alike (.call f args) (.call f args')
  | constant {v w : Value} (h : v.Alike w) (ty : EdmType) : Alike (.constant v ty) (.constant w ty)

/-- Expressions that are alike one by one. -/
inductive Expr.AllAlike : List Expr → List Expr → Prop
  | nil : AllAlike [] []
  | cons {e e' : Expr} {es es' : List Expr} (h : e.Alike e') (hes : Expr.AllAlike es es') :
      AllAlike (e :: es) (e' :: es')

end

namespace Scope

variable {s : Scope}

/-- Alike expressions are compiled to what is alike. -/
theorem visit_agree (s : Scope) (depth : Nat) {e e' : Expr} (h : e.Alike e') :
    Agree Session.Alike Compiled.Alike (s.visit depth e) (s.visit depth e') := by
  -- Both are refused when they stand too deep.
  have hrefuse : ∀ {depth : Nat} {e e' : Expr},
      (¬s.config.maxDepth ≤ depth →
        Agree Session.Alike Compiled.Alike (s.visit depth e) (s.visit depth e')) →
          Agree Session.Alike Compiled.Alike (s.visit depth e) (s.visit depth e') := by
    intro depth e e' h
    by_cases hdepth : s.config.maxDepth ≤ depth
    · rw [visit_of_le hdepth]
      exact Agree.throw_left _ _
    · exact h hdepth
  induction e using @Expr.rec _
    (fun es => ∀ depth es', Expr.AllAlike es es' →
      Agree Session.Alike (List.Forall₂ Fragment.Alike) (visit.visitAll s depth es)
        (visit.visitAll s depth es'))
    generalizing depth e' with
  | constant value ty =>
    cases h with | constant h ty =>
    refine hrefuse fun hdepth => ?_
    unfold visit
    rw [if_neg hdepth, if_neg hdepth]
    exact Agree.pure (.complete (.literal h ty))
  | property path ty =>
    -- Paths hold no payloads, so both sides resolve the same one.
    cases h
    refine hrefuse fun hdepth => ?_
    unfold visit
    rw [if_neg hdepth]
    exact (Agree.onJoins _).bind_eq fun _ => Agree.pure (.complete (.value _ ty))
  | call f args ih =>
    cases h with | call f h =>
    refine hrefuse fun hdepth => ?_
    unfold visit
    rw [if_neg hdepth, if_neg hdepth]
    exact (ih _ _ h).bind fun _ _ hargs => Agree.onBinding (f.compile_agree _ hargs)
  | unary op operand ih =>
    cases h with | unary op h =>
    refine hrefuse fun hdepth => ?_
    unfold visit
    rw [if_neg hdepth, if_neg hdepth]
    cases op with
    | negate =>
      refine (ih _ h).bind fun l r hlr => ?_
      refine (Agree.onBinding (Fragment.toScalar_agree _ hlr.fragment)).bind_eq fun scalar => ?_
      rw [hlr.fragment.ty]
      exact Agree.pure (.complete (.value _ _))
    | not =>
      exact (ih _ h).bind fun _ _ hlr =>
        (Agree.onBinding (Fragment.toPredicate_agree _ hlr.fragment)).bind_eq fun _ =>
          Agree.pure (.complete (.predicate _))
  | arithmetic op left right ihl ihr =>
    cases h with | arithmetic op hleft hright =>
    refine hrefuse fun hdepth => ?_
    unfold visit
    rw [if_neg hdepth, if_neg hdepth]
    refine (ihl _ hleft).bind fun l l' hl => (ihr _ hright).bind fun r r' hr => ?_
    dsimp only
    rw [hl.fragment.ty, hr.fragment.ty]
    exact (Agree.onBinding (Fragment.toScalar_agree _ hl.fragment)).bind_eq fun _ =>
      (Agree.onBinding (Fragment.toScalar_agree _ hr.fragment)).bind_eq fun _ =>
        Agree.pure (.complete (.value _ _))
  | logical op left right ihl ihr =>
    cases h with | logical op hleft hright =>
    refine hrefuse fun hdepth => ?_
    unfold visit
    rw [if_neg hdepth, if_neg hdepth]
    exact (ihl _ hleft).bind fun _ _ hl =>
      (Agree.onBinding (Fragment.toPredicate_agree _ hl.fragment)).bind_eq fun _ =>
        (ihr _ hright).bind fun _ _ hr =>
          (Agree.onBinding (Fragment.toPredicate_agree _ hr.fragment)).bind_eq fun _ =>
            Agree.pure (.complete (.predicate _))
  | relational op left right ihl ihr =>
    cases h with | relational op hleft hright =>
    refine hrefuse fun hdepth => ?_
    unfold visit
    rw [if_neg hdepth, if_neg hdepth]
    exact (ihl _ hleft).bind fun _ _ hl => (ihr _ hright).bind fun _ _ hr =>
      (Agree.onBinding (compare_agree _ op hl hr.fragment)).bind_eq fun _ =>
        Agree.pure (.complete (.predicate _))
  | nil =>
    rename_i h
    cases h
    exact Agree.pure .nil
  | cons e es ihe ihes =>
    rename_i h
    cases h with | cons h hes =>
    unfold visit.visitAll
    exact (ihe _ h).bind fun _ _ hlr => (ihes _ _ hes).bind fun _ _ hrest =>
      Agree.pure (.cons hlr.fragment hrest)

/-- Alike conditions are compiled to the same predicate. -/
theorem condition_agree (s : Scope) {e e' : Expr} (h : e.Alike e') :
    Agree Session.Alike Eq (s.condition e) (s.condition e') := by
  unfold condition
  exact (s.visit_agree 0 h).bind fun _ _ hlr =>
    Agree.onBinding (Fragment.toPredicate_agree _ hlr.fragment)

/-- A condition that is compiled on its own is compiled from nothing. -/
theorem compileFilter_ok {e : Expr} {f : CompiledFilter} (h : s.compileFilter e = .ok f) :
    ∃ t, s.condition e .start = .ok f.predicate t ∧ f.joins = t.joins ∧
      f.parameters = t.parameters := by
  unfold compileFilter at h
  split at h
  next =>
    split at h
    next p t hrun =>
      cases h
      exact ⟨t, hrun, rfl, rfl⟩
    next => cases h
  next => cases h

/-- Literals never influence a compiled condition. When two expressions that differ in the payloads
of literals at most are both compiled, their predicates, their joins, and the names of their
parameters are the same; and a compiled predicate holds no constants but truth values and the two
numbers that are needed to look for a text at a position. -/
theorem compileFilter_forgets_payloads (s : Scope) :
    (∀ (e e' : Expr) (f f' : CompiledFilter), e.Alike e' → s.compileFilter e = .ok f →
      s.compileFilter e' = .ok f' →
        f.predicate = f'.predicate ∧ f.joins = f'.joins ∧
          f.parameters.names = f'.parameters.names) ∧
    ∀ (e : Expr) (f : CompiledFilter), s.compileFilter e = .ok f → f.predicate.IsParametric := by
  refine ⟨?_, ?_⟩
  · intro e e' f f' halike h h'
    obtain ⟨t, hrun, hjoins, hparameters⟩ := compileFilter_ok h
    obtain ⟨t', hrun', hjoins', hparameters'⟩ := compileFilter_ok h'
    have hstart : Session.Alike .start .start := ⟨rfl, rfl, rfl⟩
    obtain ⟨hpredicate, ht⟩ := s.condition_agree halike _ _ _ _ _ _ hstart hrun hrun'
    refine ⟨hpredicate, ?_, ?_⟩
    · rw [hjoins, hjoins', ht.joins]
    · rw [hparameters, hparameters']
      exact ht.binding.names
  · intro e f h
    obtain ⟨t, hrun, -, -⟩ := compileFilter_ok h
    exact isParametric_condition hrun

end Scope

/-- Two searches of the shop, for different parts of a name at different positions and for orders
since different days, are compiled to one predicate. -/
theorem Shop.lookup_forgets_payloads :
    (lookup "smith" "2024-02-29" 0).Alike (lookup "'; --" "1999-12-31T23:59" 7) ∧
      ∃ f f', customers.compileFilter (lookup "smith" "2024-02-29" 0) = .ok f ∧
        customers.compileFilter (lookup "'; --" "1999-12-31T23:59" 7) = .ok f' ∧
        f.predicate = f'.predicate ∧ f.joins = f'.joins ∧
        f.parameters.names = f'.parameters.names ∧ f.predicate.IsParametric := by
  have halike : (lookup "smith" "2024-02-29" 0).Alike (lookup "'; --" "1999-12-31T23:59" 7) :=
    .logical _
      (.relational _
        (.call _ (.cons (.property _ _) (.cons (.constant (.string _ _) _) .nil)))
        (.constant (.int32 _ _) _))
      (.relational _
        (.call _ (.cons (.property _ _) (.cons (.constant (.string _ _) _) .nil)))
        (.constant (.int32 _ _) _))
  obtain ⟨f, h⟩ := exists_of_isOk
    (show (customers.compileFilter (lookup "smith" "2024-02-29" 0)).isOk = true by decide +kernel)
  obtain ⟨f', h'⟩ := exists_of_isOk
    (show (customers.compileFilter (lookup "'; --" "1999-12-31T23:59" 7)).isOk = true by
      decide +kernel)
  obtain ⟨hsame, hparametric⟩ := customers.compileFilter_forgets_payloads
  obtain ⟨hpredicate, hjoins, hnames⟩ := hsame _ _ f f' halike h h'
  exact ⟨halike, f, f', h, h', hpredicate, hjoins, hnames, hparametric _ f h⟩

end EntityQuery
