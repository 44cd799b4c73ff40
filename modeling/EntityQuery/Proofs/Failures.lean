import EntityQuery.Proofs.Lowering

/-!
# Failures of lowering

A computation that `FailsOnly` with errors of a kind throws no other errors, from every state where
an invariant of it holds, and keeps the invariant when it succeeds. Sequences do so when their parts
do (`FailsOnly.bind`). Lowering asks for no names and looks at no depth, so all of it fails about
operands: an operator that is not supported, an order on null, or a text that is no literal of its
type (`Fragment.toScalar_failsOnly` up to `Scope.compare_failsOnly`); only a call has to
be of a number of arguments that its function accepts (`Builtin.compile_failsOnly`). An error
of use is about operands, or about too deep a nesting.
-/

namespace EntityQuery

/-- Whether an error is about what an operator, an order or a declared type is applied to. -/
def PlanError.isOfOperands : PlanError → Bool
  | unsupported .. | nullNotComparable _ | invalidLiteral .. => true
  | _ => false

/-- Whether an error is about how operands are used, and not about a name or an option. -/
def PlanError.isOfUse : PlanError → Bool
  | unsupported .. | nullNotComparable _ | invalidLiteral .. | tooDeep _ => true
  | _ => false

/-- What is about operands is about how they are used. -/
theorem PlanError.isOfUse_of_isOfOperands {e : PlanError} (h : e.isOfOperands = true) :
    e.isOfUse = true := by
  cases e with
  | unsupported | nullNotComparable | invalidLiteral => rfl
  | _ => cases h

/-! ## Computations that fail with errors of a kind -/

section

variable {σ α β : Type} {P Q : PlanError → Prop} {I : σ → Prop} {x : EStateM PlanError σ α}

/-- From every state with an invariant, a computation ends in such a state, or fails with an error
of a kind. -/
def FailsOnly (P : PlanError → Prop) (I : σ → Prop) (x : EStateM PlanError σ α) : Prop :=
  ∀ s, I s → match x s with
    | .ok _ t => I t
    | .error e _ => P e

/-- A computation fails with errors of use. -/
abbrev FailsInUse (I : σ → Prop) (x : EStateM PlanError σ α) : Prop :=
  FailsOnly (·.isOfUse = true) I x

/-- A computation fails with errors about operands, from every state. -/
abbrev FailsOnOperands (x : EStateM PlanError σ α) : Prop :=
  FailsOnly (·.isOfOperands = true) (fun _ => True) x

namespace FailsOnly

/-- A run that succeeds keeps the invariant. -/
theorem ok (h : FailsOnly P I x) {s t : σ} {a : α} (hs : I s) (hx : x s = .ok a t) : I t := by
  have hrun := h s hs
  rw [hx] at hrun
  exact hrun

/-- A run that fails does so with an error of the kind. -/
theorem error (h : FailsOnly P I x) {s t : σ} {e : PlanError} (hs : I s) (hx : x s = .error e t) :
    P e := by
  have hrun := h s hs
  rw [hx] at hrun
  exact hrun

/-- What fails with errors of a kind fails with errors of every wider kind. -/
theorem mono (h : FailsOnly P I x) (hPQ : ∀ e, P e → Q e) : FailsOnly Q I x := by
  intro s hs
  have hrun := h s hs
  cases hx : x s with
  | ok a t =>
    rw [hx] at hrun
    exact hrun
  | error e t =>
    rw [hx] at hrun
    exact hPQ e hrun

/-- What fails about operands fails in use. -/
theorem inUse (h : FailsOnly (·.isOfOperands = true) I x) : FailsInUse I x :=
  h.mono fun _ => PlanError.isOfUse_of_isOfOperands

/-- A result does not fail. -/
theorem pure (a : α) : FailsOnly P I (Pure.pure a : EStateM PlanError σ α) := fun _ hs => hs

/-- Throwing an error of a kind fails with errors of the kind. -/
theorem throw {e : PlanError} (he : P e) :
    FailsOnly P I (throw e : EStateM PlanError σ α) := fun _ _ => he

/-- A sequence fails with errors of a kind when its first part does, and its second part does on
every result that the first one can have. -/
theorem bind_of_ok {f : α → EStateM PlanError σ β} (hx : FailsOnly P I x)
    (hf : ∀ a s t, x s = .ok a t → FailsOnly P I (f a)) : FailsOnly P I (x >>= f) := by
  intro s hs
  have hrun := hx s hs
  show match EStateM.bind x f s with
    | .ok _ t => I t
    | .error e _ => P e
  unfold EStateM.bind
  cases h : x s with
  | ok a t =>
    rw [h] at hrun
    exact hf a s t h t hrun
  | error e t =>
    rw [h] at hrun
    exact hrun

/-- A sequence fails with errors of a kind when its parts do. -/
theorem bind {f : α → EStateM PlanError σ β} (hx : FailsOnly P I x)
    (hf : ∀ a, FailsOnly P I (f a)) : FailsOnly P I (x >>= f) :=
  hx.bind_of_ok fun a _ _ _ => hf a

/-- A computation on the joins of a session fails with errors of a kind when it does on its own. -/
theorem onJoins {J : JoinPlan → Prop} {x : JoinPlan.Run α} (hx : FailsOnly P J x) :
    FailsOnly P (fun t : Session => J t.joins) (Session.onJoins x) := by
  intro t ht
  have hrun := hx t.joins ht
  unfold Session.onJoins
  cases h : x t.joins with
  | ok a joins =>
    rw [h] at hrun
    exact hrun
  | error e joins =>
    rw [h] at hrun
    exact hrun

/-- A computation on the parameters of a session fails with errors of a kind when it does on its
own, and it keeps what holds of the joins. -/
theorem onBinding {J : JoinPlan → Prop} {x : Binding.Run α}
    (hx : FailsOnly P (fun _ => True) x) :
    FailsOnly P (fun t : Session => J t.joins) (Session.onBinding x) := by
  intro t ht
  have hrun := hx t.binding trivial
  unfold Session.onBinding
  cases h : x t.binding with
  | ok a binding => exact ht
  | error e binding =>
    rw [h] at hrun
    exact hrun

end FailsOnly

end

/-! ## Lowering -/

/-- Binding a value does not fail. -/
theorem Binding.bindValue_failsOnly (c : Config) (v : Value) :
    FailsOnOperands (bindValue c v) := fun _ _ => trivial

/-- Binding a literal fails when its text is none of its type. -/
theorem Binding.bind_failsOnly (c : Config) (v : Value) (ty : EdmType) :
    FailsOnOperands (bind c v ty) := by
  unfold bind
  split
  next => exact bindValue_failsOnly c _
  next e herror =>
    obtain ⟨text, -, rfl⟩ := Value.normalize_error herror
    exact FailsOnly.throw rfl

namespace Fragment

/-- Lowering to a scalar fails about operands. -/
theorem toScalar_failsOnly (c : Config) (f : Fragment) :
    FailsOnOperands (f.toScalar c) := by
  unfold toScalar
  split
  · exact FailsOnly.pure _
  · exact Binding.bind_failsOnly c _ _
  · exact FailsOnly.throw rfl
  · exact FailsOnly.throw rfl

/-- Lowering a needle fails about operands. -/
theorem toPattern_failsOnly (c : Config) (b : Builtin) (f : Fragment) :
    FailsOnOperands (f.toPattern c b) := by
  rw [toPattern_eq]
  exact toScalar_failsOnly c _

/-- Lowering some fragments fails about operands. -/
theorem toScalars_failsOnly (c : Config) (fs : List Fragment) :
    FailsOnOperands (toScalars c fs) := by
  induction fs with
  | nil => exact FailsOnly.pure _
  | cons f fs ih =>
    unfold toScalars
    exact (toScalar_failsOnly c f).bind fun _ => ih.bind fun _ => FailsOnly.pure _

/-- Lowering to a predicate fails about operands. -/
theorem toPredicate_failsOnly (c : Config) (f : Fragment) :
    FailsOnOperands (f.toPredicate c) := by
  unfold toPredicate
  split
  · exact FailsOnly.pure _
  · exact FailsOnly.pure _
  · exact (Binding.bindValue_failsOnly c _).bind fun _ => FailsOnly.pure _
  · exact FailsOnly.throw rfl

end Fragment

/-! ## Calls and comparisons -/

/-- A call whose function accepts the number of its arguments fails about operands. -/
theorem Builtin.compile_failsOnly (c : Config) (f : Builtin) {args : List Fragment}
    (h : f.arity.accepts args.length = true) :
    FailsOnOperands (f.compile c args) := by
  unfold compile
  rw [if_pos h]
  by_cases hdirect : f.kind = .directValue
  · rw [hdirect]
    exact (Fragment.toScalars_failsOnly c args).bind fun _ => FailsOnly.pure _
  · -- The other kinds take two arguments, so the last branch of the match is never reached.
    obtain ⟨first, second, rfl⟩ := List.length_eq_two.mp (eq_two_of_accepts hdirect h)
    cases hkind : f.kind with
    | directValue => exact absurd hkind hdirect
    | patternMatch =>
      exact (Fragment.toScalar_failsOnly c _).bind fun _ =>
        (Fragment.toPattern_failsOnly c f _).bind fun _ => FailsOnly.pure _
    | opaqueComparison =>
      exact (Fragment.toScalar_failsOnly c _).bind fun _ =>
        (Fragment.toScalar_failsOnly c _).bind fun _ => FailsOnly.pure _
    | indexOf =>
      exact (Fragment.toScalar_failsOnly c _).bind fun _ =>
        (Fragment.toScalar_failsOnly c _).bind fun _ => FailsOnly.pure _

/-- Comparing a waiting call fails about operands. -/
theorem Pending.resolve_failsOnly (c : Config) (p : Pending) (op : RelationalOp)
    (threshold : Fragment) : FailsOnOperands (p.resolve c op threshold) := by
  unfold resolve
  cases p with
  | indexOf haystack needle =>
    dsimp only
    split
    · exact (Fragment.toScalar_failsOnly c threshold).bind fun _ => FailsOnly.pure _
    · exact FailsOnly.throw rfl
  | comparison f left right =>
    dsimp only
    split
    · split
      · split <;> exact FailsOnly.pure _
      · exact FailsOnly.throw rfl
    · exact FailsOnly.throw rfl

namespace Scope

/-- Comparing a predicate fails about operands. -/
theorem compareWithBool_failsOnly (op : RelationalOp) (p : Predicate) (operand : Fragment) :
    FailsOnOperands (compareWithBool op p operand) := by
  unfold compareWithBool
  split
  · exact FailsOnly.pure _
  · exact FailsOnly.pure _
  · exact FailsOnly.throw rfl

/-- Testing against a null literal fails about operands. -/
theorem nullTest_failsOnly (c : Config) (op : RelationalOp) (operand : Fragment) :
    FailsOnOperands (nullTest c op operand) := by
  unfold nullTest
  split
  · refine (Fragment.toScalar_failsOnly c operand).bind fun _ => ?_
    split <;> exact FailsOnly.pure _
  · exact FailsOnly.throw rfl

/-- The check for an order fails about operands. -/
theorem checkOrder_failsOnly (op : RelationalOp) (operand : Fragment) :
    FailsOnOperands (checkOrder op operand) := by
  unfold checkOrder
  split
  · exact FailsOnly.throw rfl
  · exact FailsOnly.pure _

/-- Comparing values fails about operands. -/
theorem compareValues_failsOnly (c : Config) (op : RelationalOp) (left right : Fragment) :
    FailsOnOperands (compareValues c op left right) := by
  unfold compareValues
  split
  · split
    · exact FailsOnly.pure _
    · exact FailsOnly.throw rfl
  · exact nullTest_failsOnly c op _
  · exact nullTest_failsOnly c op _
  · exact (checkOrder_failsOnly op left).bind fun _ =>
      (checkOrder_failsOnly op right).bind fun _ =>
        (Fragment.toScalar_failsOnly c left).bind fun _ =>
          (Fragment.toScalar_failsOnly c right).bind fun _ => FailsOnly.pure _

/-- Comparing operands that do not wait for a comparison fails about operands. -/
theorem compareFragments_failsOnly (c : Config) (op : RelationalOp) (left right : Fragment) :
    FailsOnOperands (compareFragments c op left right) := by
  unfold compareFragments
  split
  · exact compareWithBool_failsOnly op _ _
  · exact compareWithBool_failsOnly op _ _
  · exact compareValues_failsOnly c op _ _

/-- Comparing compiled operands fails about operands. -/
theorem compare_failsOnly (c : Config) (op : RelationalOp) (left : Compiled) (right : Fragment) :
    FailsOnOperands (compare c op left right) := by
  unfold compare
  split
  · exact Pending.resolve_failsOnly c _ op right
  · exact FailsOnly.throw rfl
  · exact compareFragments_failsOnly c op _ right

end Scope

end EntityQuery
