import EntityQuery.Proofs.Joins
import EntityQuery.Proofs.Lowering

/-!
# Runs of the compiler over expressions

A session only gathers. Compiling an expression is put together from parts that add joins and
parts that bind values (`visit_gathers`), and so is all that is compiled from expressions.
`Session.Adds` is one step of it: a join is registered or a parameter is bound. What gathers takes a
walk of such steps, also when it fails half way (`Gathers.moves`).

`visit_ok_induct` is the induction over what was compiled. A property of an expression, the session
before, what it was compiled to, and the session after holds of every successful run when it is
kept at each kind of node. A node's case has the property of its operands, the walks between the
sessions, what was done to the parameters at the node itself, and the node's own run.
`condition_ok`, `value_ok` and `sortKeys_cons_ok` take the runs around it apart.
-/

open Relation (ReflTransGen)

namespace EntityQuery

namespace Session

variable {s : Scope} {t t' : Session}

/-- One more join is registered or one more parameter is bound. -/
inductive Adds (s : Scope) (t : Session) : Session → Prop
  | join {joins : JoinPlan} (h : s.Adds t.joins joins) : Adds s t { t with joins }
  | parameter {binding : Binding} (h : Binding.Adds s.config t.binding binding) :
      Adds s t { t with binding }

/-- A walk over joins is a walk of a session. -/
theorem grows_joins {joins joins' : JoinPlan} (binding : Binding)
    (h : ReflTransGen s.Adds joins joins') :
    ReflTransGen (Adds s) ⟨joins, binding⟩ ⟨joins', binding⟩ := by
  induction h with
  | refl => exact ReflTransGen.refl
  | tail _ hadds ih => exact ih.tail (.join hadds)

/-- A walk over bindings is a walk of a session. -/
theorem grows_binding {binding binding' : Binding} (joins : JoinPlan)
    (h : ReflTransGen (Binding.Adds s.config) binding binding') :
    ReflTransGen (Adds s) ⟨joins, binding⟩ ⟨joins, binding'⟩ := by
  induction h with
  | refl => exact ReflTransGen.refl
  | tail _ hadds ih => exact ih.tail (.parameter hadds)

/-- Along a walk of a session, its joins take a walk. -/
theorem joins_grow (h : ReflTransGen (Adds s) t t') : ReflTransGen s.Adds t.joins t'.joins := by
  induction h with
  | refl => exact ReflTransGen.refl
  | tail _ hadds ih =>
    cases hadds with
    | join hjoin => exact ih.tail hjoin
    | parameter => exact ih

/-- Along a walk of a session, its binding takes a walk. -/
theorem binding_grow (h : ReflTransGen (Adds s) t t') :
    ReflTransGen (Binding.Adds s.config) t.binding t'.binding := by
  induction h with
  | refl => exact ReflTransGen.refl
  | tail _ hadds ih =>
    cases hadds with
    | join => exact ih
    | parameter hparameter => exact ih.tail hparameter

/-- A computation on the joins is a walk of the session when it is one of the joins. -/
theorem onJoins_moves {α : Type} {x : JoinPlan.Run α} (h : Moves s.Adds x) :
    Moves (Adds s) (onJoins x) := by
  intro t
  have hjoins := grows_joins t.binding (h t.joins)
  unfold onJoins
  cases hx : x t.joins with
  | ok a joins =>
    rw [hx] at hjoins
    exact hjoins
  | error e joins =>
    rw [hx] at hjoins
    exact hjoins

/-- A computation on the parameters is a walk of the session when it is one of the binding. -/
theorem onBinding_moves {α : Type} {x : Binding.Run α}
    (h : Moves (Binding.Adds s.config) x) : Moves (Adds s) (onBinding x) := by
  intro t
  have hbinding := grows_binding t.joins (h t.binding)
  unfold onBinding
  cases hx : x t.binding with
  | ok a binding =>
    rw [hx] at hbinding
    exact hbinding
  | error e binding =>
    rw [hx] at hbinding
    exact hbinding

/-- The parts of what is done with a session: joins are added, and values are bound. -/
inductive IsPart (s : Scope) : (α : Type) → Run α → Prop
  | joins {α : Type} {x : JoinPlan.Run α} (h : Moves s.Adds x) : IsPart s α (onJoins x)
  | binding {α : Type} {x : Binding.Run α} (h : Binding.Binds s.config x) :
      IsPart s α (onBinding x)

/-- A computation goes over the session by adding joins and binding values, and in no other way. -/
abbrev Gathers (s : Scope) {α : Type} (x : Run α) : Prop := Composed (IsPart s) α x

/-- Gathering is a walk of the session. -/
theorem Gathers.moves {α : Type} {x : Run α} (h : Gathers s x) : Moves (Adds s) x := by
  refine Composed.moves h fun α x hpart => ?_
  cases hpart with
  | joins hjoins => exact onJoins_moves hjoins
  | binding hbinds => exact onBinding_moves hbinds.moves

/-- Adding joins is a part of gathering. -/
theorem Gathers.onJoins {α : Type} {x : JoinPlan.Run α} (h : Moves s.Adds x) :
    Gathers s (onJoins x) :=
  .part (.joins h)

/-- Binding values is a part of gathering. -/
theorem Gathers.onBinding {α : Type} {x : Binding.Run α} (h : Binding.Binds s.config x) :
    Gathers s (onBinding x) :=
  .part (.binding h)

/-- Lowering a fragment to a scalar is a walk of the session. -/
theorem grows_toScalar {f : Fragment} {x : Scalar} {b b' : Binding} (joins : JoinPlan)
    (h : f.toScalar s.config b = .ok x b') : ReflTransGen (Adds s) ⟨joins, b⟩ ⟨joins, b'⟩ :=
  grows_binding joins ((f.toScalar_binds s.config).moves.ok h)

/-- Lowering a fragment to a predicate is a walk of the session. -/
theorem grows_toPredicate {f : Fragment} {p : Predicate} {b b' : Binding} (joins : JoinPlan)
    (h : f.toPredicate s.config b = .ok p b') : ReflTransGen (Adds s) ⟨joins, b⟩ ⟨joins, b'⟩ :=
  grows_binding joins ((f.toPredicate_binds s.config).moves.ok h)

end Session

namespace Scope

open Session

/-! ## Every run -/

/-- An expression that stands as deep as the settings allow is refused, whatever it is. -/
theorem visit_of_le {s : Scope} {depth : Nat} {e : Expr} (h : s.config.maxDepth ≤ depth) :
    s.visit depth e = throw (.tooDeep s.config.maxDepth) := by
  unfold visit
  exact if_pos h

/-- Compiling an expression only gathers. -/
theorem visit_gathers (s : Scope) (depth : Nat) (e : Expr) :
    Session.Gathers s (s.visit depth e) := by
  -- Being refused is no step.
  have hrefuse : ∀ {depth : Nat} {e : Expr},
      (¬s.config.maxDepth ≤ depth → Session.Gathers s (s.visit depth e)) →
        Session.Gathers s (s.visit depth e) := by
    intro depth e h
    by_cases hdepth : s.config.maxDepth ≤ depth
    · rw [visit_of_le hdepth]
      exact .throw _
    · exact h hdepth
  induction e using @Expr.rec _
    (fun es => ∀ depth, Session.Gathers s (visit.visitAll s depth es))
    generalizing depth with
  | constant value ty =>
    refine hrefuse fun hdepth => ?_
    unfold visit
    rw [if_neg hdepth]
    exact .pure _
  | property path ty =>
    refine hrefuse fun hdepth => ?_
    unfold visit
    rw [if_neg hdepth]
    exact (Gathers.onJoins (s.resolveProperty_moves path)).bind fun _ => .pure _
  | call f args ih =>
    refine hrefuse fun hdepth => ?_
    unfold visit
    rw [if_neg hdepth]
    exact (ih _).bind fun _ => Gathers.onBinding (f.compile_binds _ _)
  | unary op operand ih =>
    refine hrefuse fun hdepth => ?_
    unfold visit
    rw [if_neg hdepth]
    cases op with
    | negate =>
      exact (ih _).bind fun _ =>
        (Gathers.onBinding (Fragment.toScalar_binds _ _)).bind fun _ => .pure _
    | not =>
      exact (ih _).bind fun _ =>
        (Gathers.onBinding (Fragment.toPredicate_binds _ _)).bind fun _ => .pure _
  | arithmetic op left right ihl ihr =>
    refine hrefuse fun hdepth => ?_
    unfold visit
    rw [if_neg hdepth]
    exact (ihl _).bind fun _ => (ihr _).bind fun _ =>
      (Gathers.onBinding (Fragment.toScalar_binds _ _)).bind fun _ =>
        (Gathers.onBinding (Fragment.toScalar_binds _ _)).bind fun _ => .pure _
  | logical op left right ihl ihr =>
    refine hrefuse fun hdepth => ?_
    unfold visit
    rw [if_neg hdepth]
    exact (ihl _).bind fun _ => (Gathers.onBinding (Fragment.toPredicate_binds _ _)).bind fun _ =>
      (ihr _).bind fun _ => (Gathers.onBinding (Fragment.toPredicate_binds _ _)).bind fun _ =>
        .pure _
  | relational op left right ihl ihr =>
    refine hrefuse fun hdepth => ?_
    unfold visit
    rw [if_neg hdepth]
    exact (ihl _).bind fun _ => (ihr _).bind fun _ =>
      (Gathers.onBinding (compare_binds _ _ _ _)).bind fun _ => .pure _
  | nil => exact .pure _
  | cons e es ihe ihes =>
    unfold visit.visitAll
    exact (ihe _).bind fun _ => (ihes _).bind fun _ => .pure _

/-- Compiling arguments only gathers. -/
theorem visitAll_gathers (s : Scope) (depth : Nat) (es : List Expr) :
    Session.Gathers s (visit.visitAll s depth es) := by
  induction es with
  | nil => exact .pure _
  | cons e es ih =>
    unfold visit.visitAll
    exact (s.visit_gathers depth e).bind fun _ => ih.bind fun _ => .pure _

/-- Compiling a condition only gathers. -/
theorem condition_gathers (s : Scope) (e : Expr) : Session.Gathers s (s.condition e) :=
  (s.visit_gathers 0 e).bind fun _ => Gathers.onBinding (Fragment.toPredicate_binds _ _)

/-- Compiling a value only gathers. -/
theorem value_gathers (s : Scope) (e : Expr) : Session.Gathers s (s.value e) :=
  (s.visit_gathers 0 e).bind fun _ => Gathers.onBinding (Fragment.toScalar_binds _ _)

/-- Compiling a sort key only gathers. -/
theorem sortKey_gathers (s : Scope) (key : OrderKey) : Session.Gathers s (s.sortKey key) :=
  (s.value_gathers key.expr).bind fun _ => .pure _

/-- Compiling sort keys only gathers. -/
theorem sortKeys_gathers (s : Scope) (keys : List OrderKey) :
    Session.Gathers s (s.sortKeys keys) := by
  induction keys with
  | nil => exact .pure _
  | cons key keys ih =>
    unfold sortKeys
    exact (s.sortKey_gathers key).bind fun _ => ih.bind fun _ => .pure _

/-! ## Successful runs -/

/-- An expression that was compiled did not stand too deep. -/
theorem lt_maxDepth_of_visit_ok {s : Scope} {depth : Nat} {e : Expr} {t t' : Session}
    {compiled : Compiled} (h : s.visit depth e t = .ok compiled t') :
    ¬s.config.maxDepth ≤ depth := by
  intro hdepth
  rw [visit_of_le hdepth] at h
  exact throw_ne_ok h

/-- An expression was compiled, at some depth, from a session to another one. -/
def Visited (s : Scope) (e : Expr) (t : Session) (compiled : Compiled) (t' : Session) : Prop :=
  ∃ depth, s.visit depth e t = .ok compiled t'

/-- The induction over what was compiled: what each kind of node keeps holds of every successful
run. -/
theorem visit_ok_induct {s : Scope} {M : Expr → Session → Compiled → Session → Prop}
    {N : List Expr → Session → List Fragment → Session → Prop}
    (constant : ∀ value ty t, s.Visited (.constant value ty) t (.complete (.literal value ty)) t →
      M (.constant value ty) t (.complete (.literal value ty)) t)
    (property : ∀ path ty t column joins, s.resolveProperty path t.joins = .ok column joins →
      s.Visited (.property path ty) t (.complete (.value column ty)) { t with joins } →
      M (.property path ty) t (.complete (.value column ty)) { t with joins })
    (call : ∀ f args t fragments t₁ compiled binding, N args t fragments t₁ →
      ReflTransGen (Session.Adds s) t t₁ →
      f.Compiles s.config fragments t₁.binding compiled binding →
      s.Visited (.call f args) t compiled { t₁ with binding } →
      M (.call f args) t compiled { t₁ with binding })
    (negate : ∀ operand t compiled t₁ scalar binding, M operand t compiled t₁ →
      ReflTransGen (Session.Adds s) t t₁ →
      compiled.fragment.toScalar s.config t₁.binding = .ok scalar binding →
      s.Visited (.unary .negate operand) t
        (.complete (.value (.negate scalar) compiled.fragment.ty)) { t₁ with binding } →
      M (.unary .negate operand) t (.complete (.value (.negate scalar) compiled.fragment.ty))
        { t₁ with binding })
    (not : ∀ operand t compiled t₁ p binding, M operand t compiled t₁ →
      ReflTransGen (Session.Adds s) t t₁ →
      compiled.fragment.toPredicate s.config t₁.binding = .ok p binding →
      s.Visited (.unary .not operand) t (.complete (.predicate (.not p))) { t₁ with binding } →
      M (.unary .not operand) t (.complete (.predicate (.not p))) { t₁ with binding })
    (arithmetic : ∀ op left right t l t₁ r t₂ x b₁ y b₂, M left t l t₁ →
      ReflTransGen (Session.Adds s) t t₁ → M right t₁ r t₂ →
      ReflTransGen (Session.Adds s) t₁ t₂ →
      l.fragment.toScalar s.config t₂.binding = .ok x b₁ →
      r.fragment.toScalar s.config b₁ = .ok y b₂ →
      s.Visited (.arithmetic op left right) t
        (.complete (.value (.arithmetic op x y)
          (if l.fragment.ty = .null then r.fragment.ty else l.fragment.ty)))
        { t₂ with binding := b₂ } →
      M (.arithmetic op left right) t
        (.complete (.value (.arithmetic op x y)
          (if l.fragment.ty = .null then r.fragment.ty else l.fragment.ty)))
        { t₂ with binding := b₂ })
    (logical : ∀ op left right t l t₁ p b₁ r t₂ q b₂, M left t l t₁ →
      ReflTransGen (Session.Adds s) t t₁ →
      l.fragment.toPredicate s.config t₁.binding = .ok p b₁ →
      M right { t₁ with binding := b₁ } r t₂ →
      ReflTransGen (Session.Adds s) { t₁ with binding := b₁ } t₂ →
      r.fragment.toPredicate s.config t₂.binding = .ok q b₂ →
      s.Visited (.logical op left right) t (.complete (.predicate (connective op p q)))
        { t₂ with binding := b₂ } →
      M (.logical op left right) t (.complete (.predicate (connective op p q)))
        { t₂ with binding := b₂ })
    (relational : ∀ op left right t l t₁ r t₂ p binding, M left t l t₁ →
      ReflTransGen (Session.Adds s) t t₁ → M right t₁ r t₂ →
      ReflTransGen (Session.Adds s) t₁ t₂ →
      Compares s.config op l r.fragment t₂.binding p binding →
      s.Visited (.relational op left right) t (.complete (.predicate p)) { t₂ with binding } →
      M (.relational op left right) t (.complete (.predicate p)) { t₂ with binding })
    (nil : ∀ t, N [] t [] t)
    (cons : ∀ e es t compiled t₁ fragments t₂, M e t compiled t₁ →
      ReflTransGen (Session.Adds s) t t₁ → N es t₁ fragments t₂ →
      ReflTransGen (Session.Adds s) t₁ t₂ →
      N (e :: es) t (compiled.fragment :: fragments) t₂)
    {depth : Nat} {e : Expr} {t t' : Session} {compiled : Compiled}
    (h : s.visit depth e t = .ok compiled t') : M e t compiled t' := by
  -- The induction is on the tree: a node deeper down is compiled at another depth, and from the
  -- session that its left neighbours have left behind.
  induction e using @Expr.rec _
    (fun es => ∀ depth t fragments t',
      visit.visitAll s depth es t = .ok fragments t' → N es t fragments t')
    generalizing depth t compiled t' with
  | constant value ty =>
    have hdepth := lt_maxDepth_of_visit_ok h
    have hrun : s.Visited _ t compiled t' := ⟨depth, h⟩
    unfold visit at h
    rw [if_neg hdepth, pure_eq_ok] at h
    obtain ⟨rfl, rfl⟩ := h
    exact constant value ty _ hrun
  | property path ty =>
    have hdepth := lt_maxDepth_of_visit_ok h
    have hrun : s.Visited _ t compiled t' := ⟨depth, h⟩
    unfold visit at h
    rw [if_neg hdepth] at h
    simp only [bind_eq_ok, onJoins_eq_ok, pure_eq_ok] at h
    obtain ⟨column, _, ⟨joins, hcolumn, rfl⟩, rfl, rfl⟩ := h
    exact property path ty t column joins hcolumn hrun
  | call f args ih =>
    have hdepth := lt_maxDepth_of_visit_ok h
    have hrun : s.Visited _ t compiled t' := ⟨depth, h⟩
    unfold visit at h
    rw [if_neg hdepth] at h
    simp only [bind_eq_ok, onBinding_eq_ok] at h
    obtain ⟨fragments, t₁, hargs, binding, hcompile, rfl⟩ := h
    exact call f args t fragments t₁ compiled binding (ih _ _ _ _ hargs)
      ((s.visitAll_gathers _ args).moves.ok hargs) (Builtin.compile_ok hcompile) hrun
  | unary op operand ih =>
    have hdepth := lt_maxDepth_of_visit_ok h
    have hrun : s.Visited _ t compiled t' := ⟨depth, h⟩
    unfold visit at h
    rw [if_neg hdepth] at h
    cases op with
    | negate =>
      simp only [bind_eq_ok, onBinding_eq_ok, pure_eq_ok] at h
      obtain ⟨c, t₁, hoperand, scalar, _, ⟨binding, hscalar, rfl⟩, rfl, rfl⟩ := h
      exact negate operand t c t₁ scalar binding (ih hoperand)
        ((s.visit_gathers _ operand).moves.ok hoperand) hscalar hrun
    | not =>
      simp only [bind_eq_ok, onBinding_eq_ok, pure_eq_ok] at h
      obtain ⟨c, t₁, hoperand, p, _, ⟨binding, hp, rfl⟩, rfl, rfl⟩ := h
      exact not operand t c t₁ p binding (ih hoperand)
        ((s.visit_gathers _ operand).moves.ok hoperand) hp hrun
  | arithmetic op left right ihl ihr =>
    have hdepth := lt_maxDepth_of_visit_ok h
    have hrun : s.Visited _ t compiled t' := ⟨depth, h⟩
    unfold visit at h
    rw [if_neg hdepth] at h
    simp only [bind_eq_ok, onBinding_eq_ok, pure_eq_ok] at h
    obtain ⟨l, t₁, hleft, r, t₂, hright, x, _, ⟨b₁, hx, rfl⟩, y, _, ⟨b₂, hy, rfl⟩, rfl, rfl⟩ := h
    exact arithmetic op left right t l t₁ r t₂ x b₁ y b₂ (ihl hleft)
      ((s.visit_gathers _ left).moves.ok hleft) (ihr hright)
      ((s.visit_gathers _ right).moves.ok hright) hx hy hrun
  | logical op left right ihl ihr =>
    have hdepth := lt_maxDepth_of_visit_ok h
    have hrun : s.Visited _ t compiled t' := ⟨depth, h⟩
    unfold visit at h
    rw [if_neg hdepth] at h
    simp only [bind_eq_ok, onBinding_eq_ok, pure_eq_ok] at h
    obtain ⟨l, t₁, hleft, p, _, ⟨b₁, hp, rfl⟩, r, t₂, hright, q, _, ⟨b₂, hq, rfl⟩, rfl, rfl⟩ := h
    exact logical op left right t l t₁ p b₁ r t₂ q b₂ (ihl hleft)
      ((s.visit_gathers _ left).moves.ok hleft) hp (ihr hright)
      ((s.visit_gathers _ right).moves.ok hright) hq hrun
  | relational op left right ihl ihr =>
    have hdepth := lt_maxDepth_of_visit_ok h
    have hrun : s.Visited _ t compiled t' := ⟨depth, h⟩
    unfold visit at h
    rw [if_neg hdepth] at h
    simp only [bind_eq_ok, onBinding_eq_ok, pure_eq_ok] at h
    obtain ⟨l, t₁, hleft, r, t₂, hright, p, _, ⟨binding, hp, rfl⟩, rfl, rfl⟩ := h
    exact relational op left right t l t₁ r t₂ p binding (ihl hleft)
      ((s.visit_gathers _ left).moves.ok hleft) (ihr hright)
      ((s.visit_gathers _ right).moves.ok hright) (compare_ok hp) hrun
  | nil =>
    rename_i h
    unfold visit.visitAll at h
    obtain ⟨rfl, rfl⟩ := pure_eq_ok.mp h
    exact nil _
  | cons e es ihe ihes =>
    rename_i depth t fragments t' h
    unfold visit.visitAll at h
    simp only [bind_eq_ok, pure_eq_ok] at h
    obtain ⟨c, t₁, he, rest, t₂, hes, rfl, rfl⟩ := h
    exact cons e es t c t₁ rest _ (ihe he) ((s.visit_gathers _ e).moves.ok he) (ihes _ _ _ _ hes)
      ((s.visitAll_gathers _ es).moves.ok hes)

/-- A condition is compiled from the expression, and then lowered to a predicate. -/
theorem condition_ok {s : Scope} {e : Expr} {t t' : Session} {p : Predicate} :
    s.condition e t = .ok p t' ↔
      ∃ compiled t₁ binding, s.visit 0 e t = .ok compiled t₁ ∧
        compiled.fragment.toPredicate s.config t₁.binding = .ok p binding ∧
        t' = { t₁ with binding } := by
  unfold condition
  simp only [bind_eq_ok, onBinding_eq_ok]
  constructor
  · rintro ⟨compiled, t₁, he, binding, hp, rfl⟩
    exact ⟨compiled, t₁, binding, he, hp, rfl⟩
  · rintro ⟨compiled, t₁, binding, he, hp, rfl⟩
    exact ⟨compiled, t₁, he, binding, hp, rfl⟩

/-- A value is compiled from the expression, and then lowered to a scalar. -/
theorem value_ok {s : Scope} {e : Expr} {t t' : Session} {scalar : Scalar} :
    s.value e t = .ok scalar t' ↔
      ∃ compiled t₁ binding, s.visit 0 e t = .ok compiled t₁ ∧
        compiled.fragment.toScalar s.config t₁.binding = .ok scalar binding ∧
        t' = { t₁ with binding } := by
  unfold value
  simp only [bind_eq_ok, onBinding_eq_ok]
  constructor
  · rintro ⟨compiled, t₁, he, binding, hscalar, rfl⟩
    exact ⟨compiled, t₁, binding, he, hscalar, rfl⟩
  · rintro ⟨compiled, t₁, binding, he, hscalar, rfl⟩
    exact ⟨compiled, t₁, he, binding, hscalar, rfl⟩

/-- Sort keys are compiled one after the other. -/
theorem sortKeys_cons_ok {s : Scope} {key : OrderKey} {keys : List OrderKey} {t t' : Session}
    {sortKeys : List SortKey} :
    s.sortKeys (key :: keys) t = .ok sortKeys t' ↔
      ∃ scalar rest t₁, s.value key.expr t = .ok scalar t₁ ∧ s.sortKeys keys t₁ = .ok rest t' ∧
        sortKeys = ⟨scalar, key.direction⟩ :: rest := by
  rw [Scope.sortKeys]
  unfold sortKey
  simp only [bind_eq_ok, pure_eq_ok]
  constructor
  · rintro ⟨_, _, ⟨scalar, t₁, hscalar, rfl, rfl⟩, rest, t₂, hrest, rfl, rfl⟩
    exact ⟨scalar, rest, _, hscalar, hrest, rfl⟩
  · rintro ⟨scalar, rest, t₁, hscalar, hrest, rfl⟩
    exact ⟨_, _, ⟨scalar, t₁, hscalar, rfl, rfl⟩, rest, t', hrest, rfl, rfl⟩

end Scope

end EntityQuery
