import EntityQuery.Proofs.Binding

/-!
# What fragments are lowered to

The outcomes of the steps that turn fragments into scalars and predicates. Only a value and a
literal have a scalar (`toScalar_ok`), and the literal is bound for it. The needle of a pattern
match is lowered as the fragment `asPattern` makes of it. `Builtin.Compiles` lists what a call can
be compiled to, and `Scope.Compares` what a comparison can be; `compile_ok` and `compare_ok` say
that the lists are complete, so that a proof about a call or a comparison is a proof for each item.
All of these steps go over the binding by binding values (`toScalar_binds` up to `compare_binds`).
-/

namespace EntityQuery

namespace Fragment

variable {c : Config} {b b' : Binding}

/-- A fragment has a scalar when it is a value, or a literal, which is bound. -/
theorem toScalar_ok {f : Fragment} {scalar : Scalar} :
    f.toScalar c b = .ok scalar b' ↔
      (∃ ty, f = .value scalar ty ∧ b' = b) ∨
      (∃ v ty w, f = .literal v ty ∧ v.normalize ty = .ok w ∧
        scalar = .parameter (b.nextName c) ∧ b' = b.push c w) := by
  cases f with
  | predicate p =>
    constructor
    · intro h
      exact absurd h throw_ne_ok
    · rintro (⟨ty, h, -⟩ | ⟨v, ty, w, h, -⟩) <;> cases h
  | value sc ty =>
    unfold toScalar
    rw [pure_eq_ok]
    constructor
    · rintro ⟨rfl, rfl⟩
      exact .inl ⟨ty, rfl, rfl⟩
    · rintro (⟨ty', h, rfl⟩ | ⟨v, ty', w, h, -⟩)
      · cases h
        exact ⟨rfl, rfl⟩
      · cases h
  | literal v ty =>
    -- The only fragment that binds something.
    unfold toScalar
    rw [Binding.bind_ok]
    constructor
    · rintro ⟨w, hw, hs, hb⟩
      exact .inr ⟨v, ty, w, rfl, hw, hs, hb⟩
    · rintro (⟨ty', h, -⟩ | ⟨v', ty', w, h, hw, hs, hb⟩)
      · cases h
      · cases h
        exact ⟨w, hw, hs, hb⟩
  | deferred f =>
    constructor
    · intro h
      exact absurd h throw_ne_ok
    · rintro (⟨ty, h, -⟩ | ⟨v, ty, w, h, -⟩) <;> cases h

/-- What a pattern match looks for: a literal text gets its wildcards. -/
def asPattern (f : Builtin) : Fragment → Fragment
  | .literal (.string text) ty => .literal (.string (f.pattern text)) ty
  | other => other

/-- A needle is lowered as the pattern that it stands for. -/
theorem toPattern_eq (c : Config) (f : Builtin) (needle : Fragment) :
    needle.toPattern c f = (needle.asPattern f).toScalar c := by
  unfold toPattern
  split
  next text ty => rfl
  next hother =>
    unfold asPattern
    split
    next text ty => exact absurd rfl (hother text ty)
    next => rfl

/-- The scalars of some fragments are those of the first and of the others. -/
theorem toScalars_cons_ok {f : Fragment} {fs : List Fragment} {scalars : List Scalar} :
    toScalars c (f :: fs) b = .ok scalars b' ↔
      ∃ scalar rest b₁, f.toScalar c b = .ok scalar b₁ ∧ toScalars c fs b₁ = .ok rest b' ∧
        scalars = scalar :: rest := by
  rw [toScalars]
  simp only [bind_eq_ok, pure_eq_ok]
  constructor
  · rintro ⟨scalar, b₁, hf, rest, b₂, hfs, rfl, rfl⟩
    exact ⟨scalar, rest, b₁, hf, hfs, rfl⟩
  · rintro ⟨scalar, rest, b₁, hf, hfs, rfl⟩
    exact ⟨scalar, b₁, hf, rest, b', hfs, rfl, rfl⟩

/-- There are as many scalars as fragments. -/
theorem length_toScalars {fs : List Fragment} {scalars : List Scalar}
    (h : toScalars c fs b = .ok scalars b') : scalars.length = fs.length := by
  induction fs generalizing b scalars with
  | nil =>
    obtain ⟨rfl, -⟩ := pure_eq_ok.mp h
    rfl
  | cons f fs ih =>
    obtain ⟨scalar, rest, b₁, -, hrest, rfl⟩ := toScalars_cons_ok.mp h
    rw [List.length_cons, List.length_cons, ih hrest]

/-- A fragment has a predicate when it is one, a Boolean literal, or a Boolean value, which is
compared with a bound `true`. -/
theorem toPredicate_ok {f : Fragment} {p : Predicate} (h : f.toPredicate c b = .ok p b') :
    (f = .predicate p ∧ b' = b) ∨
    (∃ v ty, f = .literal (.bool v) ty ∧ p = .const v ∧ b' = b) ∨
    (∃ scalar, f = .value scalar .boolean ∧
      p = .compare .eq scalar (.parameter (b.nextName c)) ∧ b' = b.push c (.bool true)) := by
  unfold toPredicate at h
  split at h
  next q =>
    obtain ⟨rfl, rfl⟩ := pure_eq_ok.mp h
    exact .inl ⟨rfl, rfl⟩
  next v ty =>
    obtain ⟨rfl, rfl⟩ := pure_eq_ok.mp h
    exact .inr (.inl ⟨v, ty, rfl, rfl, rfl⟩)
  next scalar =>
    obtain ⟨truth, b₁, hbind, h⟩ := bind_eq_ok.mp h
    obtain ⟨rfl, rfl⟩ := Binding.bindValue_ok.mp hbind
    obtain ⟨rfl, rfl⟩ := pure_eq_ok.mp h
    exact .inr (.inr ⟨scalar, rfl, rfl, rfl⟩)
  next => exact absurd h throw_ne_ok

/-- Lowering to a scalar binds values at most. -/
theorem toScalar_binds (c : Config) (f : Fragment) : Binding.Binds c (f.toScalar c) := by
  unfold toScalar
  split
  · exact .pure _
  · exact Binding.bind_binds c _ _
  · exact .throw _
  · exact .throw _

/-- Lowering a needle binds values at most. -/
theorem toPattern_binds (c : Config) (f : Builtin) (needle : Fragment) :
    Binding.Binds c (needle.toPattern c f) := by
  rw [toPattern_eq]
  exact toScalar_binds c _

/-- Lowering some fragments binds values at most. -/
theorem toScalars_binds (c : Config) (fs : List Fragment) :
    Binding.Binds c (toScalars c fs) := by
  induction fs with
  | nil => exact .pure _
  | cons f fs ih =>
    unfold toScalars
    exact (toScalar_binds c f).bind fun _ => ih.bind fun _ => .pure _

/-- Lowering to a predicate binds values at most. -/
theorem toPredicate_binds (c : Config) (f : Fragment) :
    Binding.Binds c (f.toPredicate c) := by
  unfold toPredicate
  split
  · exact .pure _
  · exact .pure _
  · exact .bind (.part (.bindValue _)) fun _ => .pure _
  · exact .throw _

end Fragment

/-! ## Calls -/

namespace Builtin

variable {c : Config} {f : Builtin} {args : List Fragment} {b b' : Binding} {compiled : Compiled}

/-- What a call with compiled arguments is compiled to, from one binding to another. -/
inductive Compiles (c : Config) (f : Builtin) :
    List Fragment → Binding → Compiled → Binding → Prop
  /-- Most functions become functions of the query. -/
  | function {args : List Fragment} {scalars : List Scalar} {b b' : Binding}
      (hkind : f.kind = .directValue) (harity : f.arity.accepts args.length = true)
      (hargs : Fragment.toScalars c args b = .ok scalars b') :
      Compiles c f args b
        (.complete (.value (.function f scalars) (f.returnType (args.head?.map Fragment.ty)))) b'
  /-- A test of a part of a text becomes a pattern match. -/
  | pattern {first second : Fragment} {value pattern : Scalar} {b b₁ b₂ : Binding}
      (hkind : f.kind = .patternMatch)
      (hvalue : (f.haystackFirst first second).1.toScalar c b = .ok value b₁)
      (hpattern : ((f.haystackFirst first second).2.asPattern f).toScalar c b₁ = .ok pattern b₂) :
      Compiles c f [first, second] b (.complete (.predicate (.like value pattern))) b₂
  /-- A comparison function waits for the comparison with zero around it. -/
  | comparison {left right : Fragment} {l r : Scalar} {b b₁ b₂ : Binding}
      (hkind : f.kind = .opaqueComparison)
      (hleft : (f.operand left).toScalar c b = .ok l b₁)
      (hright : (f.operand right).toScalar c b₁ = .ok r b₂) :
      Compiles c f [left, right] b (.pending (.comparison f l r)) b₂
  /-- A position waits for the comparison around it. -/
  | position {haystack needle : Fragment} {h n : Scalar} {b b₁ b₂ : Binding}
      (hkind : f.kind = .indexOf) (hhaystack : haystack.toScalar c b = .ok h b₁)
      (hneedle : needle.toScalar c b₁ = .ok n b₂) :
      Compiles c f [haystack, needle] b (.pending (.indexOf h n)) b₂

/-- A function that is no function of the query takes two arguments. -/
theorem eq_two_of_accepts {n : Nat} (hkind : f.kind ≠ .directValue)
    (h : f.arity.accepts n = true) : n = 2 := by
  have harity : f.arity = .exactly 2 := by
    cases f <;> first | rfl | exact absurd rfl hkind
  rw [harity] at h
  obtain ⟨hleast, hmost⟩ := Bool.and_eq_true_iff.mp h
  exact Nat.le_antisymm (of_decide_eq_true hmost) (of_decide_eq_true hleast)

/-- A call that is compiled is compiled in one of these ways. -/
theorem compile_ok (h : f.compile c args b = .ok compiled b') :
    Compiles c f args b compiled b' := by
  unfold compile at h
  split at h
  next harity =>
    by_cases hdirect : f.kind = .directValue
    · rw [hdirect] at h
      obtain ⟨scalars, b₁, hargs, h⟩ := bind_eq_ok.mp h
      obtain ⟨rfl, rfl⟩ := pure_eq_ok.mp h
      exact .function hdirect harity hargs
    · -- The other kinds take two arguments, so the last branch of the match is never reached.
      obtain ⟨first, second, rfl⟩ := List.length_eq_two.mp (eq_two_of_accepts hdirect harity)
      cases hkind : f.kind with
      | directValue => exact absurd hkind hdirect
      | patternMatch =>
        rw [hkind] at h
        obtain ⟨value, b₁, hvalue, h⟩ := bind_eq_ok.mp h
        obtain ⟨pattern, b₂, hpattern, h⟩ := bind_eq_ok.mp h
        obtain ⟨rfl, rfl⟩ := pure_eq_ok.mp h
        rw [Fragment.toPattern_eq] at hpattern
        exact .pattern hkind hvalue hpattern
      | opaqueComparison =>
        rw [hkind] at h
        obtain ⟨l, b₁, hleft, h⟩ := bind_eq_ok.mp h
        obtain ⟨r, b₂, hright, h⟩ := bind_eq_ok.mp h
        obtain ⟨rfl, rfl⟩ := pure_eq_ok.mp h
        exact .comparison hkind hleft hright
      | indexOf =>
        rw [hkind] at h
        obtain ⟨haystack, b₁, hhaystack, h⟩ := bind_eq_ok.mp h
        obtain ⟨needle, b₂, hneedle, h⟩ := bind_eq_ok.mp h
        obtain ⟨rfl, rfl⟩ := pure_eq_ok.mp h
        exact .position hkind hhaystack hneedle
  next => exact absurd h throw_ne_ok

/-- Compiling a call binds values at most. -/
theorem compile_binds (c : Config) (f : Builtin) (args : List Fragment) :
    Binding.Binds c (f.compile c args) := by
  unfold compile
  split
  · split
    · exact (Fragment.toScalars_binds c _).bind fun _ => .pure _
    · exact (Fragment.toScalar_binds c _).bind fun _ =>
        (Fragment.toPattern_binds c f _).bind fun _ => .pure _
    · exact (Fragment.toScalar_binds c _).bind fun _ =>
        (Fragment.toScalar_binds c _).bind fun _ => .pure _
    · exact (Fragment.toScalar_binds c _).bind fun _ =>
        (Fragment.toScalar_binds c _).bind fun _ => .pure _
    · exact .throw _
  · exact .throw _

end Builtin

/-! ## Comparisons -/

/-- The truth value of a comparison of things that are equal or not; an order has none. -/
def RelationalOp.equality? (op : RelationalOp) (equal : Bool) : Option Bool :=
  match op with
  | .eq => some equal
  | .ne => some !equal
  | _ => none

namespace Scope

variable {c : Config} {op : RelationalOp} {left : Compiled} {right : Fragment} {b b' : Binding}
  {p : Predicate}

/-- What the comparison of two compiled operands is compiled to, from one binding to another. -/
inductive Compares (c : Config) (op : RelationalOp) :
    Compiled → Fragment → Binding → Predicate → Binding → Prop
  /-- A position that waits is compared with a value, for equality. -/
  | position {haystack needle k : Scalar} {threshold : Fragment} {b b' : Binding}
      (hop : op.isEquality = true) (hk : threshold.toScalar c b = .ok k b') :
      Compares c op (.pending (.indexOf haystack needle)) threshold b
        ((Pending.found haystack needle k).keepIf (op == .eq)) b'
  /-- A comparison function that waits is compared with zero. -/
  | zero {f : Builtin} {l r : Scalar} {threshold : Fragment} {b : Binding}
      (hop : (op.isEquality || f == .dateTimeCompare) = true) (hzero : threshold.isZero = true) :
      Compares c op (.pending (.comparison f l r)) threshold b
        (if op == .ne then .not (.compare .eq l r) else .compare op l r) b
  /-- A predicate is compared with a Boolean literal. -/
  | literal {p : Predicate} {operand : Fragment} {v keep : Bool} {b : Binding}
      (hbool : operand.bool? = some v) (hkeep : op.equality? v = some keep) :
      Compares c op (.complete (.predicate p)) operand b (p.keepIf keep) b
  /-- A Boolean literal is compared with a predicate. -/
  | literalLeft {p : Predicate} {operand : Fragment} {v keep : Bool} {b : Binding}
      (hbool : operand.bool? = some v) (hkeep : op.equality? v = some keep) :
      Compares c op (.complete operand) (.predicate p) b (p.keepIf keep) b
  /-- Two null literals are equal. -/
  | nulls {left right : Fragment} {b : Binding} (hleft : left.isNull = true)
      (hright : right.isNull = true) (hop : op.isEquality = true) :
      Compares c op (.complete left) right b (.const (op == .eq)) b
  /-- A value on the left is tested against a null literal. -/
  | nullRight {left right : Fragment} {scalar : Scalar} {b b' : Binding}
      (hleft : left.isNull = false) (hright : right.isNull = true) (hop : op.isEquality = true)
      (hscalar : left.toScalar c b = .ok scalar b') :
      Compares c op (.complete left) right b
        (if op == .eq then .isNull scalar else .isNotNull scalar) b'
  /-- A value on the right is tested against a null literal. -/
  | nullLeft {left right : Fragment} {scalar : Scalar} {b b' : Binding}
      (hleft : left.isNull = true) (hright : right.isNull = false) (hop : op.isEquality = true)
      (hscalar : right.toScalar c b = .ok scalar b') :
      Compares c op (.complete left) right b
        (if op == .eq then .isNull scalar else .isNotNull scalar) b'
  /-- Two values are compared, in an order only if their types have one. -/
  | values {left right : Fragment} {l r : Scalar} {b b₁ b₂ : Binding}
      (hleft : left.isNull = false) (hright : right.isNull = false)
      (horder : op.isEquality = true ∨
        left.ty.isEqualityOnly = false ∧ right.ty.isEqualityOnly = false)
      (hl : left.toScalar c b = .ok l b₁) (hr : right.toScalar c b₁ = .ok r b₂) :
      Compares c op (.complete left) right b (.compare op l r) b₂

/-- A waiting call that is compared is compared as a position or with zero. -/
theorem resolvePending_ok {pending : Pending} (h : pending.resolve c op right b = .ok p b') :
    Compares c op (.pending pending) right b p b' := by
  unfold Pending.resolve at h
  cases pending with
  | indexOf haystack needle =>
    dsimp only at h
    split at h
    next hop =>
      obtain ⟨k, b₁, hk, h⟩ := bind_eq_ok.mp h
      obtain ⟨rfl, rfl⟩ := pure_eq_ok.mp h
      exact .position hop hk
    next => exact absurd h throw_ne_ok
  | comparison f l r =>
    dsimp only at h
    split at h
    next hop =>
      split at h
      next hzero =>
        -- That the arguments differ is asked by negating that they are equal.
        have hp : p = (if op == .ne then .not (.compare .eq l r) else .compare op l r) ∧
            b' = b := by
          split at h
          next hne =>
            rw [if_pos hne]
            exact pure_eq_ok.mp h
          next hne =>
            rw [if_neg hne]
            exact pure_eq_ok.mp h
        obtain ⟨rfl, rfl⟩ := hp
        exact .zero hop hzero
      next => exact absurd h throw_ne_ok
    next => exact absurd h throw_ne_ok

/-- A predicate that is compared is kept or negated, by a Boolean literal. -/
theorem compareWithBool_ok {q : Predicate} (h : compareWithBool op q right b = .ok p b') :
    ∃ v keep, right.bool? = some v ∧ op.equality? v = some keep ∧ p = q.keepIf keep ∧ b' = b := by
  unfold compareWithBool at h
  cases hbool : right.bool? with
  | none =>
    rw [hbool] at h
    exact absurd h throw_ne_ok
  | some v =>
    rw [hbool] at h
    cases op with
    | eq =>
      obtain ⟨rfl, rfl⟩ := pure_eq_ok.mp h
      exact ⟨v, v, rfl, rfl, rfl, rfl⟩
    | ne =>
      obtain ⟨rfl, rfl⟩ := pure_eq_ok.mp h
      exact ⟨v, !v, rfl, rfl, rfl, rfl⟩
    | gt | ge | lt | le => exact absurd h throw_ne_ok

/-- A test against a null literal is one for a value, and an equality. -/
theorem nullTest_ok {operand : Fragment} (h : nullTest c op operand b = .ok p b') :
    op.isEquality = true ∧ ∃ scalar, operand.toScalar c b = .ok scalar b' ∧
      p = if op == .eq then .isNull scalar else .isNotNull scalar := by
  unfold nullTest at h
  split at h
  next hop =>
    obtain ⟨scalar, b₁, hscalar, h⟩ := bind_eq_ok.mp h
    refine ⟨hop, scalar, ?_⟩
    split at h
    next heq =>
      obtain ⟨rfl, rfl⟩ := pure_eq_ok.mp h
      exact ⟨hscalar, (if_pos heq).symm⟩
    next hne =>
      obtain ⟨rfl, rfl⟩ := pure_eq_ok.mp h
      exact ⟨hscalar, (if_neg hne).symm⟩
  next => exact absurd h throw_ne_ok

/-- An operand passes when it is compared for equality, or its type has an order. -/
theorem checkOrder_ok {operand : Fragment} {u : Unit}
    (h : checkOrder op operand b = .ok u b') :
    (op.isEquality = true ∨ operand.ty.isEqualityOnly = false) ∧ b' = b := by
  unfold checkOrder at h
  split at h
  next => exact absurd h throw_ne_ok
  next hnot =>
    refine ⟨?_, (pure_eq_ok.mp h).2⟩
    rw [Bool.and_eq_true, not_and_or, Bool.not_eq_true', Bool.not_eq_false,
      Bool.not_eq_true] at hnot
    exact hnot

/-- Operands that are compared as values are compared by one of the rules for null literals and
values. -/
theorem compareValues_ok {operand : Fragment} (h : compareValues c op operand right b = .ok p b') :
    Compares c op (.complete operand) right b p b' := by
  unfold compareValues at h
  cases hleft : operand.isNull with
  | true =>
    cases hright : right.isNull with
    | true =>
      rw [hleft, hright] at h
      dsimp only at h
      split at h
      next hop =>
        obtain ⟨rfl, rfl⟩ := pure_eq_ok.mp h
        exact .nulls hleft hright hop
      next => exact absurd h throw_ne_ok
    | false =>
      rw [hleft, hright] at h
      obtain ⟨hop, scalar, hscalar, rfl⟩ := nullTest_ok h
      exact .nullLeft hleft hright hop hscalar
  | false =>
    cases hright : right.isNull with
    | true =>
      rw [hleft, hright] at h
      obtain ⟨hop, scalar, hscalar, rfl⟩ := nullTest_ok h
      exact .nullRight hleft hright hop hscalar
    | false =>
      rw [hleft, hright] at h
      -- The checks for an order come first and bind nothing.
      obtain ⟨_, b₁, hcheckLeft, h₁⟩ := bind_eq_ok.mp h
      obtain ⟨_, b₂, hcheckRight, h₂⟩ := bind_eq_ok.mp h₁
      obtain ⟨horderLeft, rfl⟩ := checkOrder_ok hcheckLeft
      obtain ⟨horderRight, rfl⟩ := checkOrder_ok hcheckRight
      obtain ⟨l, b₃, hl, h₃⟩ := bind_eq_ok.mp h₂
      obtain ⟨r, b₄, hr, h₄⟩ := bind_eq_ok.mp h₃
      obtain ⟨rfl, rfl⟩ := pure_eq_ok.mp h₄
      refine .values hleft hright ?_ hl hr
      rcases horderLeft with hop | hleftOrder
      · exact .inl hop
      · rcases horderRight with hop | hrightOrder
        · exact .inl hop
        · exact .inr ⟨hleftOrder, hrightOrder⟩

/-- A comparison that is compiled is compiled in one of these ways. -/
theorem compare_ok (h : compare c op left right b = .ok p b') :
    Compares c op left right b p b' := by
  unfold compare at h
  split at h
  next => exact resolvePending_ok h
  next => exact absurd h throw_ne_ok
  next left right hright =>
    unfold compareFragments at h
    split at h
    next =>
      obtain ⟨v, keep, hbool, hkeep, rfl, rfl⟩ := compareWithBool_ok h
      exact .literal hbool hkeep
    next value ty q _ =>
      obtain ⟨v, keep, hbool, hkeep, rfl, rfl⟩ := compareWithBool_ok h
      exact .literalLeft hbool hkeep
    next => exact compareValues_ok h

/-- A test against a null literal binds values at most. -/
theorem nullTest_binds (c : Config) (op : RelationalOp) (operand : Fragment) :
    Binding.Binds c (nullTest c op operand) := by
  unfold nullTest
  split
  · refine (Fragment.toScalar_binds c _).bind fun _ => ?_
    split
    · exact .pure _
    · exact .pure _
  · exact .throw _

/-- The comparison of a predicate binds nothing. -/
theorem compareWithBool_binds (c : Config) (op : RelationalOp) (q : Predicate)
    (operand : Fragment) : Binding.Binds c (compareWithBool op q operand) := by
  unfold compareWithBool
  split
  · exact .pure _
  · exact .pure _
  · exact .throw _

/-- Checking for an order binds nothing. -/
theorem checkOrder_binds (c : Config) (op : RelationalOp) (operand : Fragment) :
    Binding.Binds c (checkOrder op operand) := by
  unfold checkOrder
  split
  · exact .throw _
  · exact .pure _

/-- Comparing values binds values at most. -/
theorem compareValues_binds (c : Config) (op : RelationalOp) (left right : Fragment) :
    Binding.Binds c (compareValues c op left right) := by
  unfold compareValues
  split
  · split
    · exact .pure _
    · exact .throw _
  · exact nullTest_binds c op _
  · exact nullTest_binds c op _
  · exact (checkOrder_binds c op _).bind fun _ => (checkOrder_binds c op _).bind fun _ =>
      (Fragment.toScalar_binds c _).bind fun _ =>
        (Fragment.toScalar_binds c _).bind fun _ => .pure _

/-- Comparing a waiting call binds values at most. -/
theorem resolvePending_binds (c : Config) (pending : Pending) (op : RelationalOp)
    (threshold : Fragment) : Binding.Binds c (pending.resolve c op threshold) := by
  unfold Pending.resolve
  split
  · split
    · exact (Fragment.toScalar_binds c _).bind fun _ => .pure _
    · exact .throw _
  · split
    · split
      · split
        · exact .pure _
        · exact .pure _
      · exact .throw _
    · exact .throw _

/-- Comparing binds values at most. -/
theorem compare_binds (c : Config) (op : RelationalOp) (left : Compiled) (right : Fragment) :
    Binding.Binds c (compare c op left right) := by
  unfold compare
  split
  · exact resolvePending_binds c _ op _
  · exact .throw _
  · unfold compareFragments
    split
    · exact compareWithBool_binds c op _ _
    · exact compareWithBool_binds c op _ _
    · exact compareValues_binds c op _ _

end Scope

end EntityQuery
