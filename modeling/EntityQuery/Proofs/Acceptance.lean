import EntityQuery.Proofs.Preservation
import EntityQuery.Proofs.TypedNames

/-!
# Which expressions are accepted

Whether an expression is compiled does not depend on the session: what was joined and bound before
changes aliases and parameters, and nothing that an error is about. This is shown by a check that
looks at expressions alone. A `Form` is what lowering looks at in a fragment, a literal with its
value and of everything else the kind and the type, and `Scope.form?` computes the form that an
expression is compiled to, if it is. A run is decided by a verdict when it succeeds with something
of the form in it, or fails where there is none (`Decides`); every step of lowering is decided by
the check of its forms (`toScalar_decides` up to `compare_decides`), and so is a whole expression
(`Scope.visit_decides`). A filter is accepted exactly when its form is a condition
(`Scope.compileFilter_accepts_iff`).
-/

namespace EntityQuery

/-! ## Verdicts -/

section

variable {ε σ α β φ ψ : Type} {I : σ → Prop} {H : α → φ → Prop} {K : β → ψ → Prop}

/-- From every state with an invariant, a run succeeds with something that fits the verdict and
keeps the invariant, or there is no verdict and it fails. -/
def Decides (I : σ → Prop) (H : α → φ → Prop) (x : EStateM ε σ α) (verdict : Option φ) : Prop :=
  ∀ t, I t → match verdict with
    | some form => ∃ a t', x t = .ok a t' ∧ H a form ∧ I t'
    | none => ∃ e t', x t = .error e t'

namespace Decides

variable {x : EStateM ε σ α} {v : Option φ}

/-- What is returned fits a verdict. -/
theorem pure {a : α} {form : φ} (h : H a form) :
    Decides I H (Pure.pure a : EStateM ε σ α) (some form) :=
  fun t ht => ⟨a, t, rfl, h, ht⟩

/-- Where there is no verdict, a run throws. -/
theorem throw (e : ε) : Decides I H (throwThe ε e : EStateM ε σ α) none :=
  fun t _ => ⟨e, t, rfl⟩

/-- A sequence is decided by the verdicts on its parts, one after the other. -/
theorem bind {f : α → EStateM ε σ β} {g : φ → Option ψ} (hx : Decides I H x v)
    (hf : ∀ a form, H a form → Decides I K (f a) (g form)) : Decides I K (x >>= f) (v.bind g) := by
  intro t ht
  cases v with
  | none =>
    obtain ⟨e, t', hrun⟩ := hx t ht
    exact ⟨e, t', bind_eq_error.mpr (.inl hrun)⟩
  | some form =>
    obtain ⟨a, t', hrun, ha, ht'⟩ := hx t ht
    have hnext := hf a form ha t' ht'
    show match g form with
      | some form => ∃ a t', (x >>= f) t = .ok a t' ∧ K a form ∧ I t'
      | none => ∃ e t', (x >>= f) t = .error e t'
    cases hg : g form with
    | none =>
      rw [hg] at hnext
      obtain ⟨e, t'', hrun'⟩ := hnext
      exact ⟨e, t'', bind_eq_error.mpr (.inr ⟨a, t', hrun, hrun'⟩)⟩
    | some form' =>
      rw [hg] at hnext
      obtain ⟨b, t'', hrun', hb, ht''⟩ := hnext
      exact ⟨b, t'', bind_eq_ok.mpr ⟨a, t', hrun, hrun'⟩, hb, ht''⟩

/-- What follows and always succeeds leaves a verdict as it is. -/
theorem bind_some {f : α → EStateM ε σ β} {L : β → φ → Prop} (hx : Decides I H x v)
    (hf : ∀ a form, H a form → Decides I L (f a) (some form)) : Decides I L (x >>= f) v := by
  have hsequence := hx.bind hf
  rwa [Option.bind_fun_some] at hsequence

/-- A run that goes on only under a condition is decided by a verdict under that condition. -/
theorem ite {p : Prop} [Decidable p] (e : ε) (hx : p → Decides I H x v) :
    Decides I H (if p then x else throwThe ε e) (do guard p; v) := by
  by_cases hp : p
  · simp only [if_pos hp, guard]
    exact hx hp
  · simp only [if_neg hp, guard]
    exact throw e

/-- A run that succeeds only under a condition is decided by this condition. -/
theorem of_guard {p : Prop} [Decidable p] {L : α → Unit → Prop} (e : ε)
    (hx : p → Decides I L x (some ())) :
    Decides I L (if p then x else throwThe ε e) (guard p) := by
  have hsequence := ite e hx
  rwa [← Option.pure_def, bind_pure_unit] at hsequence

/-- A run with a verdict succeeds, and only such a run does. -/
theorem succeeds_iff (h : Decides I H x v) {t : σ} (ht : I t) :
    (∃ a t', x t = .ok a t') ↔ v.isSome = true := by
  have hrun := h t ht
  cases v with
  | none =>
    obtain ⟨e, t', hrun⟩ := hrun
    simp [hrun]
  | some form =>
    obtain ⟨a, t', hrun, -, -⟩ := hrun
    simp [hrun]

end Decides

end

/-! ## Forms -/

/-- What lowering looks at in a compiled expression. -/
inductive Form
  | predicate
  | value (ty : EdmType)
  | literal (value : Value) (ty : EdmType)
  /-- A position that waits for the comparison around it. -/
  | position
  /-- A comparison function that waits for the comparison with zero around it. -/
  | comparison (f : Builtin)

namespace Form

/-- The type of a form. -/
def ty : Form → EdmType
  | predicate => .boolean
  | value ty => ty
  | literal _ ty => ty
  | position | comparison _ => .int32

/-- Whether a form is the literal `null`. -/
def isNull : Form → Bool
  | literal .null _ => true
  | _ => false

/-- Whether a form is the literal zero. -/
def isZero : Form → Bool
  | literal (.int32 n) _ => n == 0
  | literal (.int64 n) _ => n == 0
  | _ => false

/-- Whether a form is a Boolean literal. -/
def isBool : Form → Bool
  | literal (.bool _) _ => true
  | _ => false

/-- Whether a form waits for a comparison. -/
def waits : Form → Bool
  | position | comparison _ => true
  | _ => false

/-- What a pattern match looks for: a literal text gets its wildcards. -/
def asPattern (f : Builtin) : Form → Form
  | literal (.string text) ty => literal (.string (f.pattern text)) ty
  | other => other

/-- What an argument of a comparison function stands for. -/
def asOperand (f : Builtin) : Form → Form
  | literal (.string text) ty =>
    literal (.string text) (if f = .dateTimeCompare then .dateTime else ty)
  | other => other

/-- Whether there is a scalar for a form: a value has one, and so has a literal of its type. -/
def scalar? : Form → Option Unit
  | value _ => some ()
  | literal v ty => (v.normalize ty).toOption.map fun _ => ()
  | _ => none

/-- Whether there is a scalar for each of some forms. -/
def scalars? : List Form → Option Unit
  | [] => some ()
  | form :: forms => do
    form.scalar?
    scalars? forms

/-- Whether there is a predicate for a form: a condition has one, and so have Boolean values. -/
def predicate? : Form → Option Unit
  | predicate => some ()
  | literal (.bool _) _ => some ()
  | value .boolean => some ()
  | _ => none

/-- The form of a call with arguments of some forms. -/
def call? (f : Builtin) (args : List Form) : Option Form :=
  if f.arity.accepts args.length then
    match f.kind, args with
    | .directValue, args => do
      scalars? args
      return value (f.returnType (args.head?.map ty))
    | .patternMatch, [a, b] => do
      (f.haystackFirst a b).1.scalar?
      ((f.haystackFirst a b).2.asPattern f).scalar?
      return predicate
    | .opaqueComparison, [left, right] => do
      (left.asOperand f).scalar?
      (right.asOperand f).scalar?
      return comparison f
    | .indexOf, [haystack, needle] => do
      haystack.scalar?
      needle.scalar?
      return position
    | _, _ => none
  else none

/-- Whether two operands that are no predicates can be compared. -/
def compareValues? (op : RelationalOp) (left right : Form) : Option Unit :=
  match left.isNull, right.isNull with
  | true, true => guard op.isEquality
  | true, false => do
    guard op.isEquality
    right.scalar?
  | false, true => do
    guard op.isEquality
    left.scalar?
  | false, false => do
    guard (op.isEquality || !left.ty.isEqualityOnly)
    guard (op.isEquality || !right.ty.isEqualityOnly)
    left.scalar?
    right.scalar?

/-- Whether two operands can be compared. -/
def compare? (op : RelationalOp) : Form → Form → Option Unit
  | position, right => do
    guard op.isEquality
    right.scalar?
  | comparison f, right => do
    guard (op.isEquality || f == .dateTimeCompare)
    guard right.isZero
  | predicate, right => guard (right.isBool && op.isEquality)
  | literal v ty, predicate => guard ((literal v ty).isBool && op.isEquality)
  | left, right => if right.waits then none else compareValues? op left right

end Form

/-- A fragment is of a form. -/
inductive Fragment.HasForm : Fragment → Form → Prop
  | predicate (p : Predicate) : HasForm (.predicate p) .predicate
  | value (scalar : Scalar) (ty : EdmType) : HasForm (.value scalar ty) (.value ty)
  | literal (value : Value) (ty : EdmType) : HasForm (.literal value ty) (.literal value ty)
  | position : HasForm (.deferred .indexOf) .position
  | comparison (f : Builtin) : HasForm (.deferred f) (.comparison f)

/-- A compiled expression is of a form. What waits for a comparison is no fragment. -/
inductive Compiled.HasForm : Compiled → Form → Prop
  | complete {f : Fragment} {form : Form} (h : f.HasForm form) (hwaits : form.waits = false) :
      HasForm (.complete f) form
  | position (haystack needle : Scalar) : HasForm (.pending (.indexOf haystack needle)) .position
  | comparison (f : Builtin) (left right : Scalar) :
      HasForm (.pending (.comparison f left right)) (.comparison f)

/-- What is left of a compiled expression is of its form. -/
theorem Compiled.HasForm.fragment {compiled : Compiled} {form : Form} (h : compiled.HasForm form) :
    compiled.fragment.HasForm form := by
  cases h with
  | complete h _ => exact h
  | position => exact .position
  | comparison f => exact .comparison f

namespace Fragment.HasForm

variable {f : Fragment} {form : Form}

/-- A fragment has the type of its form. -/
theorem ty_eq (h : f.HasForm form) : f.ty = form.ty := by
  cases h <;> rfl

/-- A fragment is the literal `null` when its form is. -/
theorem isNull_eq (h : f.HasForm form) : f.isNull = form.isNull := by
  cases h with
  | literal value ty => cases value <;> rfl
  | _ => rfl

/-- A fragment is the literal zero when its form is. -/
theorem isZero_eq (h : f.HasForm form) : f.isZero = form.isZero := by
  cases h with
  | literal value ty => cases value <;> rfl
  | _ => rfl

/-- A fragment is a Boolean literal when its form is. -/
theorem isSome_bool? (h : f.HasForm form) : f.bool?.isSome = form.isBool := by
  cases h with
  | literal value ty => cases value <;> rfl
  | _ => rfl

/-- The pattern that a fragment stands for is of the form that its form stands for. -/
theorem asPattern (h : f.HasForm form) (b : Builtin) :
    (f.asPattern b).HasForm (form.asPattern b) := by
  cases h with
  | literal value ty => cases value <;> exact .literal _ _
  | _ => constructor

/-- What a fragment stands for in a comparison is of the form that its form stands for. -/
theorem asOperand (h : f.HasForm form) (b : Builtin) :
    (b.operand f).HasForm (form.asOperand b) := by
  by_cases hinstant : b = .dateTimeCompare
  · subst hinstant
    cases h with
    | literal value ty => cases value <;> exact .literal _ _
    | _ => constructor
  · have hkept : b.operand f = f := by
      unfold Builtin.operand
      split
      next => exact absurd rfl hinstant
      next => rfl
    rw [hkept]
    cases h with
    | literal value ty =>
      cases value with
      | string text =>
        rw [Form.asOperand, if_neg hinstant]
        exact .literal _ _
      | _ => exact .literal _ _
    | _ => constructor

end Fragment.HasForm

/-! ## Lowering -/

/-- A run over bindings succeeds exactly when there is a verdict. -/
abbrev Binding.Decides {α φ : Type} (H : α → φ → Prop) (x : Binding.Run α) (v : Option φ) : Prop :=
  EntityQuery.Decides (fun _ => True) H x v

/-- Anything fits the verdict that something is there. -/
abbrev Fits {α φ : Type} : α → φ → Prop := fun _ _ => True

section

variable {c : Config} {op : RelationalOp} {f g : Fragment} {φ ψ : Form}

/-- Binding a value succeeds. -/
theorem Binding.bindValue_decides (c : Config) (v : Value) :
    Binding.Decides Fits (bindValue c v) (some ()) :=
  fun _ _ => ⟨_, _, bindValue_ok.mpr ⟨rfl, rfl⟩, trivial, trivial⟩

/-- Binding a literal succeeds when it is one of its type. -/
theorem Binding.bind_decides (c : Config) (v : Value) (ty : EdmType) :
    Binding.Decides Fits (bind c v ty) ((v.normalize ty).toOption.map fun _ => ()) := by
  unfold bind
  cases v.normalize ty with
  | ok w => exact bindValue_decides c w
  | error e => exact .throw e

/-- What there is a scalar for can be lowered to one. -/
theorem Fragment.HasForm.toScalar (h : f.HasForm φ) :
    Binding.Decides Fits (f.toScalar c) φ.scalar? := by
  cases h with
  | predicate | position | comparison => exact .throw _
  | value scalar ty => exact .pure trivial
  | literal v ty => exact Binding.bind_decides c v ty

/-- What there is a predicate for can be lowered to one. -/
theorem Fragment.HasForm.toPredicate (h : f.HasForm φ) :
    Binding.Decides Fits (f.toPredicate c) φ.predicate? := by
  cases h with
  | predicate => exact .pure trivial
  | value scalar ty =>
    cases ty with
    | boolean => exact (Binding.bindValue_decides c _).bind fun _ _ _ => .pure trivial
    | _ => exact .throw _
  | literal v ty =>
    cases v with
    | bool b => exact .pure trivial
    | _ => exact .throw _
  | position | comparison => exact .throw _

/-- Some fragments can be lowered to scalars when there is one for each. -/
theorem toScalars_decides {fs : List Fragment} {forms : List Form}
    (h : List.Forall₂ Fragment.HasForm fs forms) :
    Binding.Decides Fits (Fragment.toScalars c fs) (Form.scalars? forms) := by
  induction h with
  | nil => exact .pure trivial
  | cons hfirst _ ih =>
    exact hfirst.toScalar.bind fun _ _ _ => ih.bind_some fun _ _ _ => .pure trivial

/-- A call is compiled to something of the form that the forms of its arguments say. -/
theorem compile_decides {b : Builtin} {args : List Fragment} {forms : List Form}
    (h : List.Forall₂ Fragment.HasForm args forms) :
    Binding.Decides Compiled.HasForm (b.compile c args) (Form.call? b forms) := by
  unfold Builtin.compile Form.call?
  rw [h.length_eq]
  split
  next haccepts =>
    by_cases hdirect : b.kind = .directValue
    · have hty : args.head?.map Fragment.ty = forms.head?.map Form.ty := by
        cases h with
        | nil => rfl
        | cons hfirst _ => exact congrArg some hfirst.ty_eq
      rw [hdirect]
      dsimp only
      rw [hty]
      exact (toScalars_decides h).bind fun _ _ _ => .pure (.complete (.value _ _) rfl)
    · -- The other kinds take two arguments.
      have hlength := Builtin.eq_two_of_accepts hdirect haccepts
      obtain ⟨first, second, rfl⟩ := List.length_eq_two.mp hlength
      obtain _ | ⟨hfirst, _ | ⟨hsecond, _ | _⟩⟩ := h
      cases hkind : b.kind with
      | directValue => exact absurd hkind hdirect
      | patternMatch =>
        obtain ⟨hhaystack, hneedle⟩ := b.haystackFirst_means hfirst hsecond
        refine hhaystack.toScalar.bind fun _ _ _ => ?_
        rw [Fragment.toPattern_eq]
        exact (hneedle.asPattern b).toScalar.bind fun _ _ _ =>
          .pure (.complete (.predicate _) rfl)
      | opaqueComparison =>
        exact (hfirst.asOperand b).toScalar.bind fun _ _ _ =>
          (hsecond.asOperand b).toScalar.bind fun _ _ _ => .pure (.comparison b _ _)
      | indexOf =>
        exact hfirst.toScalar.bind fun _ _ _ =>
          hsecond.toScalar.bind fun _ _ _ => .pure (.position _ _)
  next => exact .throw _

/-- A predicate can be compared with a Boolean literal, for equality. -/
theorem compareWithBool_decides (op : RelationalOp) (p : Predicate) (h : f.HasForm φ) :
    Binding.Decides Fits (Scope.compareWithBool op p f) (guard (φ.isBool && op.isEquality)) := by
  unfold Scope.compareWithBool
  rw [← h.isSome_bool?]
  cases f.bool? with
  | none => exact .throw _
  | some v =>
    cases op with
    | eq | ne => exact .pure trivial
    | gt | ge | lt | le => exact .throw _

/-- What has a scalar can be tested against `null`, for equality. -/
theorem nullTest_decides (op : RelationalOp) (h : f.HasForm φ) :
    Binding.Decides Fits (Scope.nullTest c op f) (do guard op.isEquality; φ.scalar?) := by
  unfold Scope.nullTest
  refine .ite _ fun _ => h.toScalar.bind_some fun _ _ _ => ?_
  split
  · exact .pure trivial
  · exact .pure trivial

/-- An operand passes when it is compared for equality, or the type of its form has an order. -/
theorem checkOrder_decides (op : RelationalOp) (h : f.HasForm φ) :
    Binding.Decides Fits (Scope.checkOrder op f)
      (guard (op.isEquality || !φ.ty.isEqualityOnly)) := by
  unfold Scope.checkOrder
  rw [h.ty_eq]
  cases op.isEquality with
  | true => exact .pure trivial
  | false =>
    cases φ.ty.isEqualityOnly with
    | true => exact .throw _
    | false => exact .pure trivial

/-- Operands that are no predicates are compared when their forms can be. -/
theorem compareValues_decides (op : RelationalOp) (hf : f.HasForm φ) (hg : g.HasForm ψ) :
    Binding.Decides Fits (Scope.compareValues c op f g) (Form.compareValues? op φ ψ) := by
  unfold Scope.compareValues Form.compareValues?
  rw [hf.isNull_eq, hg.isNull_eq]
  cases φ.isNull with
  | true =>
    cases ψ.isNull with
    | true => exact .of_guard _ fun _ => .pure trivial
    | false => exact nullTest_decides op hg
  | false =>
    cases ψ.isNull with
    | true => exact nullTest_decides op hf
    | false =>
      exact (checkOrder_decides op hf).bind fun _ _ _ =>
        (checkOrder_decides op hg).bind fun _ _ _ => hf.toScalar.bind fun _ _ _ =>
          hg.toScalar.bind_some fun _ _ _ => .pure trivial

/-- Operands are compared when their forms can be. -/
theorem compare_decides {left : Compiled} (op : RelationalOp) (hleft : left.HasForm φ)
    (hright : g.HasForm ψ) :
    Binding.Decides Fits (Scope.compare c op left g) (Form.compare? op φ ψ) := by
  cases hleft with
  | position haystack needle =>
    exact .ite _ fun _ => hright.toScalar.bind_some fun _ _ _ => .pure trivial
  | comparison f l r =>
    refine .ite _ fun _ => ?_
    rw [← hright.isZero_eq]
    refine .of_guard _ fun _ => ?_
    split
    · exact .pure trivial
    · exact .pure trivial
  | complete hleft hwaits =>
    cases hleft with
    | position | comparison => cases hwaits
    | predicate p =>
      cases hright with
      | position | comparison => exact .throw _
      | predicate q => exact compareWithBool_decides op p (.predicate q)
      | value scalar ty => exact compareWithBool_decides op p (.value scalar ty)
      | literal v ty => exact compareWithBool_decides op p (.literal v ty)
    | value scalar ty =>
      cases hright with
      | position | comparison => exact .throw _
      | predicate q => exact compareValues_decides op (.value scalar ty) (.predicate q)
      | value scalar' ty' => exact compareValues_decides op (.value scalar ty) (.value scalar' ty')
      | literal v ty' => exact compareValues_decides op (.value scalar ty) (.literal v ty')
    | literal v ty =>
      cases hright with
      | position | comparison => exact .throw _
      | predicate p => exact compareWithBool_decides op p (.literal v ty)
      | value scalar ty' => exact compareValues_decides op (.literal v ty) (.value scalar ty')
      | literal v' ty' => exact compareValues_decides op (.literal v ty) (.literal v' ty')

end

/-! ## Whole expressions -/

section

variable {α φ : Type} {H : α → φ → Prop} {J : JoinPlan → Prop} {v : Option φ}

/-- A run on the joins of a session is decided as it is on its own. -/
theorem Decides.onJoins {x : JoinPlan.Run α} (h : Decides J H x v) :
    Decides (fun t : Session => J t.joins) H (Session.onJoins x) v := by
  intro t ht
  have hrun := h t.joins ht
  unfold Session.onJoins
  cases v with
  | none =>
    obtain ⟨e, joins, hx⟩ := hrun
    rw [hx]
    exact ⟨e, _, rfl⟩
  | some form =>
    obtain ⟨a, joins, hx, ha, hjoins⟩ := hrun
    rw [hx]
    exact ⟨a, _, rfl, ha, hjoins⟩

/-- A run on the parameters of a session is decided as it is on its own, and leaves the joins
alone. -/
theorem Decides.onBinding {x : Binding.Run α} (h : Binding.Decides H x v) :
    Decides (fun t : Session => J t.joins) H (Session.onBinding x) v := by
  intro t ht
  have hrun := h t.binding trivial
  unfold Session.onBinding
  cases v with
  | none =>
    obtain ⟨e, binding, hx⟩ := hrun
    rw [hx]
    exact ⟨e, _, rfl⟩
  | some form =>
    obtain ⟨a, binding, hx, ha, -⟩ := hrun
    rw [hx]
    exact ⟨a, _, rfl, ha, ht⟩

end

namespace Scope

/-- The form that an expression at a depth is compiled to, if it is compiled. -/
def form? (s : Scope) (depth : Nat) (e : Expr) : Option Form :=
  if s.config.maxDepth ≤ depth then none
  else
    match e with
    | .constant value ty => some (.literal value ty)
    | .property path ty => do
      let _ ← s.columnOf? path
      return .value ty
    | .call f args => do
      let args ← forms? (depth + 1) args
      Form.call? f args
    | .unary .negate operand => do
      let operand ← s.form? (depth + 1) operand
      operand.scalar?
      return .value operand.ty
    | .unary .not operand => do
      let operand ← s.form? (depth + 1) operand
      operand.predicate?
      return .predicate
    | .arithmetic _ left right => do
      let left ← s.form? (depth + 1) left
      let right ← s.form? (depth + 1) right
      left.scalar?
      right.scalar?
      return .value (if left.ty = .null then right.ty else left.ty)
    | .logical _ left right => do
      let left ← s.form? (depth + 1) left
      left.predicate?
      let right ← s.form? (depth + 1) right
      right.predicate?
      return .predicate
    | .relational op left right => do
      let left ← s.form? (depth + 1) left
      let right ← s.form? (depth + 1) right
      Form.compare? op left right
      return .predicate
where
  /-- The forms of the arguments of a call. -/
  forms? (depth : Nat) : List Expr → Option (List Form)
    | [] => some []
    | e :: es => do
      let form ← s.form? depth e
      let forms ← forms? depth es
      return form :: forms

variable {s : Scope}

/-- A property is resolved when its path names a column. -/
theorem resolveProperty_decides (s : Scope) (path : List String) :
    Decides s.Sound Fits (s.resolveProperty path) (s.columnOf? path) := by
  intro plan hsound
  cases hcolumn : s.columnOf? path with
  | some name =>
    obtain ⟨place, plan', hresolve⟩ := resolveProperty_of_columnOf hsound hcolumn
    exact ⟨_, plan', hresolve, trivial, hsound.grows ((s.resolveProperty_moves path).ok hresolve)⟩
  | none =>
    cases hrun : s.resolveProperty path plan with
    | error e plan' => exact ⟨e, plan', rfl⟩
    | ok column plan' =>
      obtain ⟨_, name, -, hname, -⟩ := column_of_resolveProperty hsound hrun
      rw [hcolumn] at hname
      cases hname

/-- Over sound joins, an expression is compiled exactly when it has a form, to something of this
form. -/
theorem visit_decides (s : Scope) (depth : Nat) (e : Expr) :
    Decides (fun t => s.Sound t.joins) Compiled.HasForm (s.visit depth e) (s.form? depth e) := by
  -- One that stands too deep is refused, and has no form.
  have hrefuse : ∀ {depth : Nat} {e : Expr},
      (¬s.config.maxDepth ≤ depth →
        Decides (fun t => s.Sound t.joins) Compiled.HasForm (s.visit depth e) (s.form? depth e)) →
      Decides (fun t => s.Sound t.joins) Compiled.HasForm (s.visit depth e) (s.form? depth e) := by
    intro depth e h
    by_cases hdepth : s.config.maxDepth ≤ depth
    · rw [visit_of_le hdepth]
      unfold form?
      rw [if_pos hdepth]
      exact .throw _
    · exact h hdepth
  induction e using @Expr.rec _
    (fun es => ∀ depth, Decides (fun t => s.Sound t.joins) (List.Forall₂ Fragment.HasForm)
      (visit.visitAll s depth es) (form?.forms? s depth es))
    generalizing depth with
  | constant value ty =>
    refine hrefuse fun hdepth => ?_
    unfold visit form?
    rw [if_neg hdepth, if_neg hdepth]
    exact .pure (.complete (.literal value ty) rfl)
  | property path ty =>
    refine hrefuse fun hdepth => ?_
    unfold visit form?
    rw [if_neg hdepth, if_neg hdepth]
    exact (s.resolveProperty_decides path).onJoins.bind fun column _ _ =>
      .pure (.complete (.value column ty) rfl)
  | call f args ih =>
    refine hrefuse fun hdepth => ?_
    unfold visit form?
    rw [if_neg hdepth, if_neg hdepth]
    exact (ih _).bind fun _ _ hargs => (compile_decides hargs).onBinding
  | unary op operand ih =>
    refine hrefuse fun hdepth => ?_
    unfold visit form?
    rw [if_neg hdepth, if_neg hdepth]
    cases op with
    | negate =>
      refine (ih _).bind fun compiled form hform => ?_
      refine hform.fragment.toScalar.onBinding.bind fun scalar _ _ => ?_
      rw [hform.fragment.ty_eq]
      exact .pure (.complete (.value (.negate scalar) form.ty) rfl)
    | not =>
      exact (ih _).bind fun _ _ hform => hform.fragment.toPredicate.onBinding.bind fun p _ _ =>
        .pure (.complete (.predicate (.not p)) rfl)
  | arithmetic op left right ihl ihr =>
    refine hrefuse fun hdepth => ?_
    unfold visit form?
    rw [if_neg hdepth, if_neg hdepth]
    refine (ihl _).bind fun l φ hl => (ihr _).bind fun r ψ hr => ?_
    rw [hl.fragment.ty_eq, hr.fragment.ty_eq]
    exact hl.fragment.toScalar.onBinding.bind fun x _ _ =>
      hr.fragment.toScalar.onBinding.bind fun y _ _ => .pure (.complete (.value _ _) rfl)
  | logical op left right ihl ihr =>
    refine hrefuse fun hdepth => ?_
    unfold visit form?
    rw [if_neg hdepth, if_neg hdepth]
    exact (ihl _).bind fun _ _ hl => hl.fragment.toPredicate.onBinding.bind fun _ _ _ =>
      (ihr _).bind fun _ _ hr => hr.fragment.toPredicate.onBinding.bind fun _ _ _ =>
        .pure (.complete (.predicate _) rfl)
  | relational op left right ihl ihr =>
    refine hrefuse fun hdepth => ?_
    unfold visit form?
    rw [if_neg hdepth, if_neg hdepth]
    exact (ihl _).bind fun _ _ hl => (ihr _).bind fun _ _ hr =>
      (compare_decides op hl hr.fragment).onBinding.bind fun _ _ _ =>
        .pure (.complete (.predicate _) rfl)
  | nil => exact .pure .nil
  | cons e es ihe ihes =>
    unfold visit.visitAll form?.forms?
    exact (ihe _).bind fun _ _ hfirst => (ihes _).bind fun _ _ hrest =>
      .pure (.cons hfirst.fragment hrest)

/-- Over sound joins, an expression is compiled to a condition exactly when its form is one. -/
theorem condition_decides (s : Scope) (e : Expr) :
    Decides (fun t => s.Sound t.joins) Fits (s.condition e)
      ((s.form? 0 e).bind Form.predicate?) :=
  (s.visit_decides 0 e).bind fun _ _ h => h.fragment.toPredicate.onBinding

/-- A filter is accepted exactly when its root is known and its form is that of a condition. -/
theorem compileFilter_accepts_iff (s : Scope) (e : Expr) :
    (∃ f, s.compileFilter e = .ok f) ↔
      s.metadata.hasEntity s.root = true ∧ ((s.form? 0 e).bind Form.predicate?).isSome = true := by
  rw [← (s.condition_decides e).succeeds_iff (t := .start) (Sound.empty s)]
  unfold compileFilter
  split
  next hroot =>
    cases s.condition e .start with
    | ok p t => simp [hroot]
    | error err t => simp
  next hroot => simp [hroot]

end Scope

end EntityQuery
