import EntityQuery.Proofs.Lowering

/-!
# Pairs of runs

Two computations `Agree` when they take related states to related states, with related results,
whenever both succeed. A run that fails agrees with every other, so where one side throws nothing is
left to show. Results and sequences agree part by part (`Agree.pure`, `Agree.bind`), and a
computation on the joins or on the parameters of a session agrees with another one when it does on
its own (`Agree.onJoins`, `Agree.onBinding`).

Literals are told apart by their payloads, and `Alike` forgets these: values are alike when they are
of one variant, and truth values only when they are the same. Fragments, bindings and sessions are
alike when nothing but payloads differs in them. Every step of lowering agrees with itself on alike
fragments (`Fragment.toScalar_agree` up to `Scope.compare_agree`): it looks at payloads only to fail
or to bind them.
-/

namespace EntityQuery

/-! ## Agreement -/

section

variable {ε σ α β γ δ : Type} {S : σ → σ → Prop} {R : α → β → Prop} {Q : γ → δ → Prop}
  {x : EStateM ε σ α} {y : EStateM ε σ β}

/-- Whenever two computations both succeed from related states, their results are related and so
are the states that they end in. -/
def Agree (S : σ → σ → Prop) (R : α → β → Prop) (x : EStateM ε σ α) (y : EStateM ε σ β) : Prop :=
  ∀ s t a b s' t', S s t → x s = .ok a s' → y t = .ok b t' → R a b ∧ S s' t'

namespace Agree

/-- Related results agree. -/
theorem pure {a : α} {b : β} (h : R a b) :
    Agree S R (Pure.pure a : EStateM ε σ α) (Pure.pure b) := by
  intro s t a' b' s' t' hst ha hb
  obtain ⟨rfl, rfl⟩ := pure_eq_ok.mp ha
  obtain ⟨rfl, rfl⟩ := pure_eq_ok.mp hb
  exact ⟨h, hst⟩

/-- A computation that throws agrees with every other. -/
theorem throw_left (e : ε) (y : EStateM ε σ β) :
    Agree S R (throw e : EStateM ε σ α) y := by
  intro s t a b s' t' _ ha _
  exact absurd ha throw_ne_ok

/-- Every computation agrees with one that throws. -/
theorem throw_right (x : EStateM ε σ α) (e : ε) :
    Agree S R x (throw e : EStateM ε σ β) := by
  intro s t a b s' t' _ _ hb
  exact absurd hb throw_ne_ok

/-- Sequences agree when their first parts do, and their second parts do on related results. -/
theorem bind {f : α → EStateM ε σ γ} {g : β → EStateM ε σ δ} (hxy : Agree S R x y)
    (hfg : ∀ a b, R a b → Agree S Q (f a) (g b)) : Agree S Q (x >>= f) (y >>= g) := by
  intro s t c d s' t' hst hc hd
  obtain ⟨a, s₁, ha, hc⟩ := bind_eq_ok.mp hc
  obtain ⟨b, t₁, hb, hd⟩ := bind_eq_ok.mp hd
  obtain ⟨hab, hst₁⟩ := hxy s t a b s₁ t₁ hst ha hb
  exact hfg a b hab s₁ t₁ c d s' t' hst₁ hc hd

/-- Sequences agree when their first parts have equal results, and their second parts agree on each
of these. -/
theorem bind_eq {y : EStateM ε σ α} {f : α → EStateM ε σ γ} {g : α → EStateM ε σ δ}
    (hxy : Agree S Eq x y) (hfg : ∀ a, Agree S Q (f a) (g a)) : Agree S Q (x >>= f) (y >>= g) :=
  hxy.bind fun a _ hab => hab ▸ hfg a

end Agree

end

/-! ## What is alike -/

/-- Values of one variant. Null and the truth values are alike only to themselves. -/
inductive Value.Alike : Value → Value → Prop
  | null : Alike .null .null
  | bool (b : Bool) : Alike (.bool b) (.bool b)
  | int32 (m n : Int32) : Alike (.int32 m) (.int32 n)
  | int64 (m n : Int64) : Alike (.int64 m) (.int64 n)
  | float64 (x y : Binary64) : Alike (.float64 x) (.float64 y)
  | decimal (s t : String) : Alike (.decimal s) (.decimal t)
  | string (s t : String) : Alike (.string s) (.string t)
  | bytes (s t : List UInt8) : Alike (.bytes s) (.bytes t)
  | dateTime (s t : Instant) : Alike (.dateTime s) (.dateTime t)
  | guid (g h : Guid) : Alike (.guid g) (.guid h)

/-- Fragments that differ in the payload of a literal at most. -/
inductive Fragment.Alike : Fragment → Fragment → Prop
  | predicate (p : Predicate) : Alike (.predicate p) (.predicate p)
  | value (scalar : Scalar) (ty : EdmType) : Alike (.value scalar ty) (.value scalar ty)
  | literal {v w : Value} (h : v.Alike w) (ty : EdmType) : Alike (.literal v ty) (.literal w ty)
  | deferred (f : Builtin) : Alike (.deferred f) (.deferred f)

/-- Compiled expressions that differ in the payload of a literal at most. -/
inductive Compiled.Alike : Compiled → Compiled → Prop
  | complete {f g : Fragment} (h : f.Alike g) : Alike (.complete f) (.complete g)
  | pending (p : Pending) : Alike (.pending p) (.pending p)

/-- Alike compiled expressions are alike in what is left of them. -/
theorem Compiled.Alike.fragment {l r : Compiled} (h : l.Alike r) :
    l.fragment.Alike r.fragment := by
  cases h with
  | complete h => exact h
  | pending p => exact .deferred _

/-- Bindings that differ in the values of parameters at most. -/
structure Binding.Alike (b b' : Binding) : Prop where
  /-- The search for the next name begins with the same number. -/
  counter : b.counter = b'.counter
  /-- The same names are bound, in the same order. -/
  names : b.parameters.names = b'.parameters.names

/-- Sessions that differ in the values of parameters at most. -/
structure Session.Alike (t t' : Session) : Prop where
  /-- The joins are the same. -/
  joins : t.joins = t'.joins
  /-- The parameters have the same names. -/
  binding : t.binding.Alike t'.binding

namespace Binding

variable {c : Config} {b b' : Binding}

/-- Alike bindings give the next parameter the same name. -/
theorem Alike.nextNumber (h : b.Alike b') (c : Config) : b.nextNumber c = b'.nextNumber c := by
  have htaken : isTaken c b.parameters = isTaken c b'.parameters := by
    funext name
    have hcontains : b.parameters.contains name = b'.parameters.contains name := by
      rw [Bool.eq_iff_iff, Parameters.contains_eq_true_iff, Parameters.contains_eq_true_iff,
        h.names]
    unfold isTaken
    rw [hcontains]
  have hsize : b.parameters.size = b'.parameters.size := by
    have hlength := congrArg List.length h.names
    rw [Parameters.names, Parameters.names, List.length_map, List.length_map] at hlength
    exact hlength
  unfold Binding.nextNumber
  rw [htaken, hsize, h.counter]

/-- Alike bindings stay alike when each binds a value, whatever the values are. -/
theorem Alike.push (h : b.Alike b') (c : Config) (v w : Value) :
    (b.push c v).Alike (b'.push c w) where
  counter := congrArg (· + 1) (h.nextNumber c)
  names := by
    rw [names_push, names_push, nextName, nextName, h.names, h.nextNumber c]

/-- Binding a value agrees with binding any other. -/
theorem bindValue_agree (c : Config) (v w : Value) :
    Agree Alike Eq (bindValue c v) (bindValue c w) := by
  intro b b' x y b₁ b₁' h hx hy
  obtain ⟨rfl, rfl⟩ := bindValue_ok.mp hx
  obtain ⟨rfl, rfl⟩ := bindValue_ok.mp hy
  refine ⟨?_, h.push c v w⟩
  rw [nextName, nextName, h.nextNumber c]

/-- Binding a literal agrees with binding any other. -/
theorem bind_agree (c : Config) (v w : Value) (ty ty' : EdmType) :
    Agree Alike Eq (bind c v ty) (bind c w ty') := by
  unfold bind
  split
  · -- The other text may be none of its type where this one is; then one run fails.
    split
    · exact bindValue_agree c _ _
    · exact Agree.throw_right _ _
  · exact Agree.throw_left _ _

end Binding

namespace Agree

variable {α β : Type} {R : α → β → Prop}

/-- A computation on the joins of a session agrees with itself: it sees no parameters. -/
theorem onJoins (x : JoinPlan.Run α) :
    Agree Session.Alike Eq (Session.onJoins x) (Session.onJoins x) := by
  intro t t' a b t₁ t₁' h ha hb
  obtain ⟨joins, hx, rfl⟩ := onJoins_eq_ok.mp ha
  obtain ⟨joins', hx', rfl⟩ := onJoins_eq_ok.mp hb
  rw [h.joins, hx'] at hx
  cases hx
  exact ⟨rfl, rfl, h.binding⟩

/-- Computations on the parameters of a session agree when they do on their own. -/
theorem onBinding {x : Binding.Run α} {y : Binding.Run β} (hxy : Agree Binding.Alike R x y) :
    Agree Session.Alike R (Session.onBinding x) (Session.onBinding y) := by
  intro t t' a b t₁ t₁' h ha hb
  obtain ⟨binding, hx, rfl⟩ := onBinding_eq_ok.mp ha
  obtain ⟨binding', hy, rfl⟩ := onBinding_eq_ok.mp hb
  obtain ⟨hab, hbinding⟩ := hxy _ _ a b _ _ h.binding hx hy
  exact ⟨hab, h.joins, hbinding⟩

end Agree

/-! ## Lowering -/

namespace Fragment

variable {f g : Fragment}

/-- Alike fragments are alike as null literals. -/
theorem Alike.isNull (h : f.Alike g) : f.isNull = g.isNull := by
  cases h with
  | literal h ty => cases h <;> rfl
  | _ => rfl

/-- Alike fragments are the same truth value, or both are none. -/
theorem Alike.bool? (h : f.Alike g) : f.bool? = g.bool? := by
  cases h with
  | literal h ty => cases h <;> rfl
  | _ => rfl

/-- Alike fragments have the same type. -/
theorem Alike.ty (h : f.Alike g) : f.ty = g.ty := by
  cases h <;> rfl

/-- Alike needles have alike patterns: wildcards only change a payload. -/
theorem Alike.asPattern (h : f.Alike g) (b : Builtin) : (f.asPattern b).Alike (g.asPattern b) := by
  cases h with
  | literal h ty => cases h <;> exact .literal (by constructor) ty
  | _ => constructor

/-- Alike arguments of a comparison function stand for alike fragments: whether a text is one of
points in time does not depend on the text. -/
theorem Alike.operand (h : f.Alike g) (b : Builtin) : (b.operand f).Alike (b.operand g) := by
  unfold Builtin.operand
  split
  · cases h with
    | literal h ty => cases h <;> exact .literal (by constructor) _
    | _ => constructor
  · exact h

/-- Alike fragments have the same scalar. -/
theorem toScalar_agree (c : Config) (h : f.Alike g) :
    Agree Binding.Alike Eq (f.toScalar c) (g.toScalar c) := by
  cases h with
  | predicate p => exact Agree.throw_left _ _
  | value scalar ty => exact Agree.pure rfl
  | literal h ty => exact Binding.bind_agree c _ _ ty ty
  | deferred b => exact Agree.throw_left _ _

/-- Alike needles have the same pattern. -/
theorem toPattern_agree (c : Config) (b : Builtin) (h : f.Alike g) :
    Agree Binding.Alike Eq (f.toPattern c b) (g.toPattern c b) := by
  rw [toPattern_eq, toPattern_eq]
  exact toScalar_agree c (h.asPattern b)

/-- Fragments that are alike one by one have the same scalars. -/
theorem toScalars_agree (c : Config) {fs gs : List Fragment} (h : List.Forall₂ Alike fs gs) :
    Agree Binding.Alike Eq (toScalars c fs) (toScalars c gs) := by
  induction h with
  | nil => exact Agree.pure rfl
  | cons hfirst _ ih =>
    unfold toScalars
    exact (toScalar_agree c hfirst).bind_eq fun _ => ih.bind_eq fun _ => Agree.pure rfl

/-- Alike fragments have the same predicate. -/
theorem toPredicate_agree (c : Config) (h : f.Alike g) :
    Agree Binding.Alike Eq (f.toPredicate c) (g.toPredicate c) := by
  cases h with
  | predicate p => exact Agree.pure rfl
  | value scalar ty =>
    unfold toPredicate
    split
    · exact Agree.pure rfl
    · exact Agree.pure rfl
    · exact (Binding.bindValue_agree c _ _).bind_eq fun _ => Agree.pure rfl
    · exact Agree.throw_left _ _
  | literal h ty =>
    cases h with
    | bool v => exact Agree.pure rfl
    | _ => exact Agree.throw_left _ _
  | deferred b => exact Agree.throw_left _ _

end Fragment

/-! ## Calls and comparisons -/

/-- What a test looks in and what it looks for are alike for alike arguments. -/
theorem Builtin.haystackFirst_alike (b : Builtin) {f g f' g' : Fragment} (hf : f.Alike f')
    (hg : g.Alike g') : (b.haystackFirst f g).1.Alike (b.haystackFirst f' g').1 ∧
      (b.haystackFirst f g).2.Alike (b.haystackFirst f' g').2 := by
  unfold haystackFirst
  split
  · exact ⟨hg, hf⟩
  · exact ⟨hf, hg⟩

/-- A call with alike arguments is compiled to what is alike. -/
theorem Builtin.compile_agree (c : Config) (b : Builtin) {args args' : List Fragment}
    (h : List.Forall₂ Fragment.Alike args args') :
    Agree Binding.Alike Compiled.Alike (b.compile c args) (b.compile c args') := by
  unfold compile
  rw [← h.length_eq]
  split
  next haccepts =>
    by_cases hdirect : b.kind = .directValue
    · have hty : args.head?.map Fragment.ty = args'.head?.map Fragment.ty := by
        cases h with
        | nil => rfl
        | cons hfirst _ => exact congrArg some hfirst.ty
      rw [hdirect]
      refine (Fragment.toScalars_agree c h).bind_eq fun scalars => ?_
      rw [hty]
      exact Agree.pure (.complete (.value _ _))
    · -- The other kinds take two arguments.
      have hlength := eq_two_of_accepts hdirect haccepts
      obtain ⟨first, second, rfl⟩ := List.length_eq_two.mp hlength
      obtain _ | ⟨hfirst, _ | ⟨hsecond, _ | _⟩⟩ := h
      cases hkind : b.kind with
      | directValue => exact absurd hkind hdirect
      | patternMatch =>
        obtain ⟨hhaystack, hneedle⟩ := b.haystackFirst_alike hfirst hsecond
        exact (Fragment.toScalar_agree c hhaystack).bind_eq fun _ =>
          (Fragment.toPattern_agree c b hneedle).bind_eq fun _ =>
            Agree.pure (.complete (.predicate _))
      | opaqueComparison =>
        exact (Fragment.toScalar_agree c (hfirst.operand b)).bind_eq fun _ =>
          (Fragment.toScalar_agree c (hsecond.operand b)).bind_eq fun _ =>
            Agree.pure (.pending _)
      | indexOf =>
        exact (Fragment.toScalar_agree c hfirst).bind_eq fun _ =>
          (Fragment.toScalar_agree c hsecond).bind_eq fun _ => Agree.pure (.pending _)
  next => exact Agree.throw_left _ _

/-- A waiting call that is compared with alike thresholds becomes the same predicate: a threshold
that is no zero is refused. -/
theorem Pending.resolve_agree (c : Config) (p : Pending) (op : RelationalOp) {f g : Fragment}
    (h : f.Alike g) : Agree Binding.Alike Eq (p.resolve c op f) (p.resolve c op g) := by
  unfold resolve
  cases p with
  | indexOf haystack needle =>
    dsimp only
    split
    · exact (Fragment.toScalar_agree c h).bind_eq fun _ => Agree.pure rfl
    · exact Agree.throw_left _ _
  | comparison b left right =>
    dsimp only
    split
    · -- Only a zero is compared with, so both thresholds are zeros or one run fails.
      by_cases hzero : g.isZero = true
      · rw [if_pos hzero]
        split
        · split <;> exact Agree.pure rfl
        · exact Agree.throw_left _ _
      · rw [if_neg hzero]
        exact Agree.throw_right _ _
    · exact Agree.throw_left _ _

namespace Scope

variable {f g f' g' : Fragment}

/-- A predicate that is compared with alike operands becomes the same predicate. -/
theorem compareWithBool_agree (op : RelationalOp) (p : Predicate) (h : f.Alike g) :
    Agree Binding.Alike Eq (compareWithBool op p f) (compareWithBool op p g) := by
  unfold compareWithBool
  rw [← h.bool?]
  split
  · exact Agree.pure rfl
  · exact Agree.pure rfl
  · exact Agree.throw_left _ _

/-- Alike operands are tested against a null literal by the same predicate. -/
theorem nullTest_agree (c : Config) (op : RelationalOp) (h : f.Alike g) :
    Agree Binding.Alike Eq (nullTest c op f) (nullTest c op g) := by
  unfold nullTest
  split
  · refine (Fragment.toScalar_agree c h).bind_eq fun _ => ?_
    split <;> exact Agree.pure rfl
  · exact Agree.throw_left _ _

/-- Alike operands pass the check for an order alike. -/
theorem checkOrder_agree (op : RelationalOp) (h : f.Alike g) :
    Agree Binding.Alike Eq (checkOrder op f) (checkOrder op g) := by
  unfold checkOrder
  rw [h.ty]
  split
  · exact Agree.throw_left _ _
  · exact Agree.pure rfl

/-- Alike operands are compared as values by the same predicate. -/
theorem compareValues_agree (c : Config) (op : RelationalOp) (hf : f.Alike f')
    (hg : g.Alike g') :
    Agree Binding.Alike Eq (compareValues c op f g) (compareValues c op f' g') := by
  unfold compareValues
  rw [hf.isNull, hg.isNull]
  split
  · split
    · exact Agree.pure rfl
    · exact Agree.throw_left _ _
  · exact nullTest_agree c op hg
  · exact nullTest_agree c op hf
  · exact (checkOrder_agree op hf).bind_eq fun _ => (checkOrder_agree op hg).bind_eq fun _ =>
      (Fragment.toScalar_agree c hf).bind_eq fun _ =>
        (Fragment.toScalar_agree c hg).bind_eq fun _ => Agree.pure rfl

/-- Alike operands are compared by the same predicate. -/
theorem compareFragments_agree (c : Config) (op : RelationalOp) (hf : f.Alike f')
    (hg : g.Alike g') :
    Agree Binding.Alike Eq (compareFragments c op f g) (compareFragments c op f' g') := by
  -- The branches look for a predicate on the left first, and on the right only beside a literal.
  cases hf with
  | predicate p => exact compareWithBool_agree op p hg
  | literal h ty =>
    cases hg with
    | predicate p => exact compareWithBool_agree op p (.literal h ty)
    | value scalar ty' => exact compareValues_agree c op (.literal h ty) (.value scalar ty')
    | literal h' ty' => exact compareValues_agree c op (.literal h ty) (.literal h' ty')
    | deferred b => exact compareValues_agree c op (.literal h ty) (.deferred b)
  | value scalar ty => exact compareValues_agree c op (.value scalar ty) hg
  | deferred b => exact compareValues_agree c op (.deferred b) hg

/-- Alike compiled operands are compared by the same predicate. -/
theorem compare_agree (c : Config) (op : RelationalOp) {l l' : Compiled} (hl : l.Alike l')
    (hg : g.Alike g') :
    Agree Binding.Alike Eq (compare c op l g) (compare c op l' g') := by
  cases hl with
  | pending p => exact p.resolve_agree c op hg
  | complete hf =>
    -- A call that still waits on the right is refused.
    cases hg with
    | deferred b => exact Agree.throw_left _ _
    | predicate p => exact compareFragments_agree c op hf (.predicate p)
    | value scalar ty => exact compareFragments_agree c op hf (.value scalar ty)
    | literal h ty => exact compareFragments_agree c op hf (.literal h ty)

end Scope

end EntityQuery
