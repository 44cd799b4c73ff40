import EntityQuery.Proofs.Sessions

/-!
# Constants in predicates

Literals are bound, so a compiled predicate has hardly any constants of its own. A scalar has none
at all, and a predicate is `IsParametric` when it has none but truth values and, where a position
was compared, the zero and the one of the text that is cut out there. Lowering, calls and
comparisons keep this (`Fragment.constants_toScalar` up to `Scope.Compares.isParametric`), and so
does a whole run (`Scope.isParametric_visit`).
-/

namespace EntityQuery

/-- The constants in a scalar. -/
def Scalar.constants : Scalar → List Int64
  | .column _ _ | .parameter _ => []
  | .constant n => [n]
  | .function _ args => constantsOfAll args
  | .arithmetic _ left right => left.constants ++ right.constants
  | .negate operand => operand.constants
where
  /-- The constants in some scalars. -/
  constantsOfAll : List Scalar → List Int64
    | [] => []
    | scalar :: scalars => scalar.constants ++ constantsOfAll scalars

/-- A predicate has no constants but truth values and the two numbers that are needed to look for a
text at a position. -/
inductive Predicate.IsParametric : Predicate → Prop
  | const (b : Bool) : IsParametric (.const b)
  | and {left right : Predicate} (hleft : left.IsParametric) (hright : right.IsParametric) :
      IsParametric (.and left right)
  | or {left right : Predicate} (hleft : left.IsParametric) (hright : right.IsParametric) :
      IsParametric (.or left right)
  | not {operand : Predicate} (h : operand.IsParametric) : IsParametric (.not operand)
  | compare (op : RelationalOp) {left right : Scalar} (hleft : left.constants = [])
      (hright : right.constants = []) : IsParametric (.compare op left right)
  /-- The first characters of a text, up to a position and one more, are another text. -/
  | found {haystack needle position : Scalar} (hhaystack : haystack.constants = [])
      (hneedle : needle.constants = []) (hposition : position.constants = []) :
      IsParametric (.compare .eq
        (.function .substring [haystack, .constant 0, .arithmetic .add position (.constant 1)])
        needle)
  | like {value pattern : Scalar} (hvalue : value.constants = [])
      (hpattern : pattern.constants = []) : IsParametric (.like value pattern)
  | isNull {operand : Scalar} (h : operand.constants = []) : IsParametric (.isNull operand)
  | isNotNull {operand : Scalar} (h : operand.constants = []) : IsParametric (.isNotNull operand)

/-- A fragment has no constants but those that a predicate may have. A literal is none yet. -/
def Fragment.IsParametric : Fragment → Prop
  | .predicate p => p.IsParametric
  | .value scalar _ => scalar.constants = []
  | .literal _ _ | .deferred _ => True

/-- A compiled expression has no constants but those that a predicate may have. -/
def Compiled.IsParametric : Compiled → Prop
  | .complete f => f.IsParametric
  | .pending (.indexOf haystack needle) => haystack.constants = [] ∧ needle.constants = []
  | .pending (.comparison _ left right) => left.constants = [] ∧ right.constants = []

/-! ## Lowering -/

/-- What is left of a compiled expression has no more constants than that. -/
theorem Compiled.IsParametric.fragment {compiled : Compiled} (h : compiled.IsParametric) :
    compiled.fragment.IsParametric := by
  cases compiled with
  | complete f => exact h
  | pending p => trivial

/-- A condition and its negation have the same constants. -/
theorem Predicate.IsParametric.keepIf {p : Predicate} (h : p.IsParametric) (keep : Bool) :
    (p.keepIf keep).IsParametric := by
  cases keep with
  | true => exact h
  | false => exact .not h

section

variable {c : Config} {b b' : Binding}

namespace Fragment

variable {f : Fragment}

/-- Lowering to a scalar leaves no constants. -/
theorem constants_toScalar {scalar : Scalar} (hf : f.IsParametric)
    (h : f.toScalar c b = .ok scalar b') : scalar.constants = [] := by
  rcases toScalar_ok.mp h with ⟨ty, rfl, -⟩ | ⟨v, ty, w, rfl, -, rfl, -⟩
  · exact hf
  · rfl

/-- Lowering to a predicate adds no constants but truth values. -/
theorem isParametric_toPredicate {p : Predicate} (hf : f.IsParametric)
    (h : f.toPredicate c b = .ok p b') : p.IsParametric := by
  rcases toPredicate_ok h with ⟨rfl, -⟩ | ⟨v, ty, rfl, rfl, -⟩ | ⟨scalar, rfl, rfl, -⟩
  · exact hf
  · exact .const v
  · -- The truth value that a value is compared with is bound like any literal.
    exact .compare .eq hf rfl

/-- Lowering to scalars leaves no constants. -/
theorem constants_toScalars {fs : List Fragment} {scalars : List Scalar}
    (hfs : ∀ f ∈ fs, f.IsParametric) (h : toScalars c fs b = .ok scalars b') :
    Scalar.constants.constantsOfAll scalars = [] := by
  induction fs generalizing b scalars with
  | nil =>
    obtain ⟨rfl, -⟩ := pure_eq_ok.mp h
    rfl
  | cons f fs ih =>
    obtain ⟨scalar, rest, b₁, hscalar, hrest, rfl⟩ := toScalars_cons_ok.mp h
    obtain ⟨hf, hfs⟩ := List.forall_mem_cons.mp hfs
    rw [Scalar.constants.constantsOfAll, constants_toScalar hf hscalar, ih hfs hrest]
    rfl

/-- A pattern has no more constants than its needle. -/
theorem IsParametric.asPattern (hf : f.IsParametric) (g : Builtin) :
    (f.asPattern g).IsParametric := by
  unfold Fragment.asPattern
  split
  · trivial
  · exact hf

/-- What an argument of a comparison function stands for has no more constants than that. -/
theorem IsParametric.operand (hf : f.IsParametric) (g : Builtin) :
    (g.operand f).IsParametric := by
  unfold Builtin.operand
  split
  · unfold asInstant
    split
    · trivial
    · exact hf
  · exact hf

end Fragment

/-- What a call is compiled to has no constants when its arguments have none. -/
theorem Builtin.Compiles.isParametric {f : Builtin} {args : List Fragment} {compiled : Compiled}
    (h : f.Compiles c args b compiled b') (hargs : ∀ g ∈ args, g.IsParametric) :
    compiled.IsParametric := by
  have htwo : ∀ {first second : Fragment}, (∀ g ∈ [first, second], g.IsParametric) →
      first.IsParametric ∧ second.IsParametric := by
    intro first second h
    exact ⟨h first List.mem_cons_self, h second (List.mem_cons_of_mem _ List.mem_cons_self)⟩
  cases h with
  | function hkind harity hscalars => exact Fragment.constants_toScalars hargs hscalars
  | @pattern first second _ _ _ _ _ hkind hvalue hpattern =>
    obtain ⟨hfirst, hsecond⟩ := htwo hargs
    have hargs : (f.haystackFirst first second).1.IsParametric ∧
        (f.haystackFirst first second).2.IsParametric := by
      unfold Builtin.haystackFirst
      split
      · exact ⟨hsecond, hfirst⟩
      · exact ⟨hfirst, hsecond⟩
    exact .like (Fragment.constants_toScalar hargs.1 hvalue)
      (Fragment.constants_toScalar (hargs.2.asPattern f) hpattern)
  | comparison hkind hleft hright =>
    obtain ⟨hfirst, hsecond⟩ := htwo hargs
    exact ⟨Fragment.constants_toScalar (hfirst.operand f) hleft,
      Fragment.constants_toScalar (hsecond.operand f) hright⟩
  | position hkind hhaystack hneedle =>
    obtain ⟨hfirst, hsecond⟩ := htwo hargs
    exact ⟨Fragment.constants_toScalar hfirst hhaystack,
      Fragment.constants_toScalar hsecond hneedle⟩

/-- What a comparison is compiled to has the two numbers of a position at most, when its operands
have no constants. -/
theorem Scope.Compares.isParametric {op : RelationalOp} {left : Compiled} {right : Fragment}
    {p : Predicate} (h : Scope.Compares c op left right b p b') (hleft : left.IsParametric)
    (hright : right.IsParametric) : p.IsParametric := by
  cases h with
  | position hop hk =>
    obtain ⟨hhaystack, hneedle⟩ := hleft
    have hposition := Fragment.constants_toScalar hright hk
    exact (Predicate.IsParametric.found hhaystack hneedle hposition).keepIf _
  | zero hop hzero =>
    obtain ⟨hl, hr⟩ := hleft
    split
    · exact .not (.compare .eq hl hr)
    · exact .compare op hl hr
  | literal hbool hkeep => exact Predicate.IsParametric.keepIf hleft _
  | literalLeft hbool hkeep => exact Predicate.IsParametric.keepIf hright _
  | nulls _ _ hop => exact .const _
  | nullRight _ _ hop hscalar =>
    have hoperand := Fragment.constants_toScalar hleft hscalar
    split
    · exact .isNull hoperand
    · exact .isNotNull hoperand
  | nullLeft _ _ hop hscalar =>
    have hoperand := Fragment.constants_toScalar hright hscalar
    split
    · exact .isNull hoperand
    · exact .isNotNull hoperand
  | values _ _ horder hx hy =>
    exact .compare op (Fragment.constants_toScalar hleft hx) (Fragment.constants_toScalar hright hy)

end

/-! ## Whole runs -/

namespace Scope

variable {s : Scope} {t t' : Session}

/-- What an expression is compiled to has no constants but those that a predicate may have. -/
theorem isParametric_visit {depth : Nat} {e : Expr} {compiled : Compiled}
    (h : s.visit depth e t = .ok compiled t') : compiled.IsParametric := by
  refine visit_ok_induct
    (M := fun _ _ compiled _ => compiled.IsParametric)
    (N := fun _ _ fragments _ => ∀ f ∈ fragments, f.IsParametric)
    ?constant ?property ?call ?negate ?not ?arithmetic ?logical ?relational ?nil ?cons h
  case constant =>
    intro value ty t _
    trivial
  case property =>
    intro path ty t column joins hcolumn _
    obtain ⟨last, place, name, -, -, -, rfl⟩ := resolveProperty_ok hcolumn
    rfl
  case call =>
    intro f args t fragments t₁ compiled binding hargs _ hcompiles _
    exact hcompiles.isParametric hargs
  case negate =>
    intro operand t compiled t₁ scalar binding hoperand _ hscalar _
    show scalar.constants = []
    exact Fragment.constants_toScalar hoperand.fragment hscalar
  case not =>
    intro operand t compiled t₁ p binding hoperand _ hp _
    exact .not (Fragment.isParametric_toPredicate hoperand.fragment hp)
  case arithmetic =>
    intro op left right t l t₁ r t₂ x b₁ y b₂ hleft _ hright _ hx hy _
    show x.constants ++ y.constants = []
    rw [Fragment.constants_toScalar hleft.fragment hx,
      Fragment.constants_toScalar hright.fragment hy]
    rfl
  case logical =>
    intro op left right t l t₁ p b₁ r t₂ q b₂ hleft _ hp hright _ hq _
    have hp := Fragment.isParametric_toPredicate hleft.fragment hp
    have hq := Fragment.isParametric_toPredicate hright.fragment hq
    cases op with
    | and => exact .and hp hq
    | or => exact .or hp hq
  case relational =>
    intro op left right t l t₁ r t₂ p binding hleft _ hright _ hcompares _
    exact hcompares.isParametric hleft hright.fragment
  case nil =>
    intro t f hmem
    exact (List.not_mem_nil hmem).elim
  case cons =>
    intro e es t compiled t₁ fragments t₂ he _ hes _
    exact List.forall_mem_cons.mpr ⟨he.fragment, hes⟩

/-- A compiled condition has no constants but truth values and the two numbers of a position. -/
theorem isParametric_condition {e : Expr} {p : Predicate} (h : s.condition e t = .ok p t') :
    p.IsParametric := by
  obtain ⟨compiled, t₁, binding, hvisit, hp, -⟩ := condition_ok.mp h
  exact Fragment.isParametric_toPredicate (isParametric_visit hvisit).fragment hp

end Scope

end EntityQuery
