import EntityQuery.Proofs.Comparisons
import EntityQuery.Proofs.Payloads
import EntityQuery.Sample.Orders

/-!
# Null safety

What becomes of the literal `null` in comparisons. Where it is an operand of a comparison itself, it
is tested for and never compared: the comparison is an equality, and its test is among those of the
predicate, with what the other operand was compiled to. Where it is an argument of a call that waits
for the comparison, it is bound like any other literal, and the predicate compares with a parameter
whose value is null. `null_operands` says both, and that there is no third case.

A parameter that is bound to null comes from a literal `null`, since no other literal has null for
its normal form (`Scalar.OperandOf.isNull`), and a literal `null` that is lowered becomes such a
parameter (`Scalar.OperandOf.of_isNull`). So an operand that is such a parameter was written as
`null`, and of the comparisons that `Scope.Stems` lists, only those of a waiting call leave room for
that.
-/

namespace EntityQuery

/-- No other value than null has null for its normal form. -/
theorem Value.eq_null_of_normalize {v : Value} {ty : EdmType} (h : v.normalize ty = .ok .null) :
    v = .null := by
  rcases normalize_ok h with hsame | ⟨text, -, hread⟩
  · exact hsame.symm
  · -- A text is read as something else, or stays a text.
    rcases ofText_ok hread with ⟨instant, h⟩ | ⟨-, guid, h⟩ | ⟨-, bytes, h⟩ | h <;> cases h

/-- An argument of a comparison function is compared as `null` when it is `null`. -/
theorem Expr.isNull_asOperand (f : Builtin) (e : Expr) : (e.asOperand f).isNull = e.isNull := by
  unfold asOperand
  split
  · rfl
  · rfl

section

variable {s : Scope} {t : Session} {e : Expr} {written : List Expr} {op : RelationalOp}
  {x y : Scalar} {name : String}

/-- A parameter whose value is null is what a literal `null` is lowered to. -/
theorem Scalar.OperandOf.isNull (h : (Scalar.parameter name).OperandOf s t e)
    (hnull : t.parameters.get? name = some .null) : e.isNull = true := by
  cases h with
  | value hx => exact hx.shows.elim
  | @literal v w ty _ he hw hname =>
    have hvalue : w = .null := Option.some.inj (hname.symm.trans hnull)
    rw [hvalue] at hw
    rw [he, Value.eq_null_of_normalize hw]
    rfl

/-- What a literal `null` is lowered to is a parameter whose value is null. -/
theorem Scalar.OperandOf.of_isNull (h : x.OperandOf s t e) (hnull : e.isNull = true) :
    ∃ name, x = .parameter name ∧ t.parameters.get? name = some .null := by
  cases h with
  | value hx =>
    rw [Expr.isNull_of_literal? hx.literal?] at hnull
    cases hnull
  | @literal v w ty name he hw hname =>
    rw [he] at hnull
    cases v with
    | null =>
      cases hw
      exact ⟨name, rfl, hname⟩
    | _ => cases hnull

namespace Scope

/-- A comparison on whose left a parameter is null stems from one of a comparison function whose
first argument is `null`. -/
theorem Stems.left_null (h : s.Stems t written op (.parameter name) y)
    (hnull : t.parameters.get? name = some .null) :
    ∃ op left right f first second, .relational op left right ∈ written ∧
      left.waiting? = some (f, first, second) ∧ f ≠ .indexOf ∧ first.isNull = true := by
  cases h with
  | values hmem hleft hright horder hx hy =>
    rw [hx.isNull hnull] at hleft
    cases hleft
  | @arguments op f left right first second _ _ hmem hwaiting hf hop hzero hx hy =>
    have hfirst := hx.isNull hnull
    rw [Expr.isNull_asOperand] at hfirst
    exact ⟨op, left, right, f, first, second, hmem, hwaiting, hf, hfirst⟩
  | truth hx hname => exact hx.shows.elim

/-- A comparison on whose right a parameter is null stems from one of a waiting call whose second
argument is `null`. -/
theorem Stems.right_null (h : s.Stems t written op x (.parameter name))
    (hnull : t.parameters.get? name = some .null) :
    ∃ op left right f first second, .relational op left right ∈ written ∧
      left.waiting? = some (f, first, second) ∧ second.isNull = true := by
  cases h with
  | values hmem hleft hright horder hx hy =>
    rw [hy.isNull hnull] at hright
    cases hright
  | @arguments op f left right first second _ _ hmem hwaiting hf hop hzero hx hy =>
    have hsecond := hy.isNull hnull
    rw [Expr.isNull_asOperand] at hsecond
    exact ⟨op, left, right, f, first, second, hmem, hwaiting, hsecond⟩
  | @position op left right first second _ _ hmem hwaiting hy =>
    exact ⟨op, left, right, .indexOf, first, second, hmem, hwaiting, hy.isNull hnull⟩
  | truth hx hname =>
    -- What a Boolean value is compared with is `true`.
    rw [hname] at hnull
    cases hnull

section

variable {f : Builtin} {first second : Expr} {test : Predicate}

/-- A first argument that is `null` is compared as a parameter whose value is null, with what the
second one is lowered to. -/
theorem CallTest.left_null (h : s.CallTest t op f first second test) (hf : f ≠ .indexOf)
    (hnull : first.isNull = true) :
    ∃ name y, test = .compare (if op = .ne then .eq else op) (.parameter name) y ∧
      t.parameters.get? name = some .null ∧ y.OperandOf s t (second.asOperand f) := by
  cases h with
  | arguments _ hx hy =>
    rw [← Expr.isNull_asOperand f] at hnull
    obtain ⟨name, rfl, hname⟩ := hx.of_isNull hnull
    exact ⟨name, _, rfl, hname, hy⟩
  | position hindexOf hy => exact absurd hindexOf hf

/-- A second argument that is `null` is compared as a parameter whose value is null. -/
theorem CallTest.right_null (h : s.CallTest t op f first second test)
    (hnull : second.isNull = true) :
    ∃ op x name, test = .compare op x (.parameter name) ∧
      t.parameters.get? name = some .null := by
  cases h with
  | arguments _ hx hy =>
    rw [← Expr.isNull_asOperand f] at hnull
    obtain ⟨name, rfl, hname⟩ := hy.of_isNull hnull
    exact ⟨_, _, name, rfl, hname⟩
  | position _ hy =>
    obtain ⟨name, rfl, hname⟩ := hy.of_isNull hnull
    exact ⟨_, _, name, rfl, hname⟩

end

end Scope

end

namespace Scope

/-- Where a literal `null` ends up in a compiled filter. A comparison of the filter with a parameter
that is null stems from a comparison of a waiting call of which the argument on that side is `null`,
and where one is written so, its `null` is compared as such a parameter. A comparison with `null` of
anything else is an equality, and is compiled to a test of what the other operand was compiled to in
the run, or to a constant when both are `null`. -/
theorem null_operands (s : Scope) (e : Expr) (f : CompiledFilter)
    (h : s.compileFilter e = .ok f) :
    ∃ t, s.condition e .start = .ok f.predicate t ∧ f.joins = t.joins ∧
      f.parameters = t.parameters ∧
    (∀ op x y, .compare op x y ∈ f.predicate.tests →
      ∀ name, f.parameters.get? name = some .null →
        (x = .parameter name →
          ∃ op left right g first second, .relational op left right ∈ e.parts ∧
            left.waiting? = some (g, first, second) ∧ g ≠ .indexOf ∧ first.isNull = true) ∧
        (y = .parameter name →
          ∃ op left right g first second, .relational op left right ∈ e.parts ∧
            left.waiting? = some (g, first, second) ∧ second.isNull = true)) ∧
    (∀ op left right g first second, .relational op left right ∈ e.parts →
      left.waiting? = some (g, first, second) →
        (g ≠ .indexOf → first.isNull = true →
          ∃ name y, .compare (if op = .ne then .eq else op) (.parameter name) y ∈
              f.predicate.tests ∧
            f.parameters.get? name = some .null ∧ y.OperandOf s t (second.asOperand g)) ∧
        (second.isNull = true →
          ∃ op x name, .compare op x (.parameter name) ∈ f.predicate.tests ∧
            f.parameters.get? name = some .null)) ∧
    ∀ op left right, .relational op left right ∈ e.parts → left.waiting? = none →
      (left.isNull = true ∨ right.isNull = true) →
      op.isEquality = true ∧ ∃ test ∈ f.predicate.tests, s.NullTest t op left right test := by
  obtain ⟨t, hrun, hjoins, hparameters⟩ := compileFilter_ok h
  obtain ⟨hstems, hfound⟩ := traced_condition hrun
  refine ⟨t, hrun, hjoins, hparameters, ?_, ?_, fun op left right hmem => (hfound _ _ _ hmem).1⟩
  · intro op x y hmem name hnull
    rw [hparameters] at hnull
    have hstem := hstems op x y hmem
    refine ⟨?_, ?_⟩
    · rintro rfl
      exact hstem.left_null hnull
    · rintro rfl
      exact hstem.right_null hnull
  · intro op left right g first second hmem hwaiting
    obtain ⟨test, htest, hcallTest⟩ := (hfound op left right hmem).2 g first second hwaiting
    rw [hparameters]
    refine ⟨?_, ?_⟩
    · intro hg hnull
      obtain ⟨name, y, rfl, hname, hy⟩ := hcallTest.left_null hg hnull
      exact ⟨name, y, htest, hname, hy⟩
    · intro hnull
      obtain ⟨op', x, name, rfl, hname⟩ := hcallTest.right_null hnull
      exact ⟨op', x, name, htest, hname⟩

end Scope

namespace Shop

/-- The condition that the name compares equal to nothing and that there is a status. -/
def nameless : Expr :=
  .logical .and
    (.relational .eq (.call .stringCompare [.property ["name"] .string, Expr.null])
      (.constant (.int32 0) .int32))
    (.relational .ne (.property ["status"] .string) Expr.null)

/-- What becomes of a name that is compared with nothing and of a status that is something. -/
theorem nameless_ok :
    customers.compileFilter nameless = .ok
      ⟨.and (.compare .eq (.column none "name") (.parameter "p0"))
        (.isNotNull (.column none "status")), .empty, ⟨[("p0", .null)]⟩⟩ := rfl

/-- The argument of the name's comparison is compared as a null parameter, and the status is
tested. -/
theorem nameless_null_operands :
    ∃ f t, customers.compileFilter nameless = .ok f ∧ f.parameters = t.parameters ∧
      .compare .eq (.column none "name") (.parameter "p0") ∈ f.predicate.tests ∧
      f.parameters.get? "p0" = some .null ∧
      (∃ op left right g first second, .relational op left right ∈ nameless.parts ∧
        left.waiting? = some (g, first, second) ∧ second.isNull = true) ∧
      (∃ op x name, .compare op x (.parameter name) ∈ f.predicate.tests ∧
        f.parameters.get? name = some .null) ∧
      ∃ test ∈ f.predicate.tests,
        customers.NullTest t .ne (.property ["status"] .string) Expr.null test := by
  obtain ⟨t, -, -, hparameters, hcompared, hbound, htested⟩ :=
    customers.null_operands nameless _ nameless_ok
  refine ⟨_, t, nameless_ok, hparameters, List.mem_cons_self, rfl, ?_, ?_, ?_⟩
  · exact (hcompared _ _ _ List.mem_cons_self "p0" rfl).2 rfl
  · have hmem : Expr.relational .eq
        (.call .stringCompare [.property ["name"] .string, Expr.null])
        (.constant (.int32 0) .int32) ∈ nameless.parts := by
      simp [nameless, Expr.parts]
    exact (hbound _ _ _ .stringCompare _ _ hmem rfl).2 rfl
  · have hmem : Expr.relational .ne (.property ["status"] .string) Expr.null ∈ nameless.parts := by
      simp [nameless, Expr.parts]
    exact (htested _ _ _ hmem rfl (.inr rfl)).2

/-- A filter may compare with a parameter that is null. -/
theorem null_argument_compared :
    ¬∀ (s : Scope) (e : Expr) (f : CompiledFilter), s.compileFilter e = .ok f →
      ∀ op x y, .compare op x y ∈ f.predicate.tests →
        ∀ name, f.parameters.get? name = some .null →
          x ≠ .parameter name ∧ y ≠ .parameter name := by
  intro h
  exact (h customers nameless _ nameless_ok _ _ _ List.mem_cons_self "p0" rfl).2 rfl

end Shop

end EntityQuery
