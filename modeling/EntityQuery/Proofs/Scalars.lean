import EntityQuery.Proofs.Sessions

/-!
# What compilation keeps of scalars

The scalars of a compiled expression are made in few ways: properties become columns, literals
become parameters, and calls, arithmetic and negation put scalars together. A property of scalars is
`Scope.Keeps` when each of these ways keeps it, and what is added to the session later does. Such a
property holds of every scalar that a compiled expression is made of (`Keeps.visit`), so it is not
shown again for calls and comparisons.
-/

open Relation (ReflTransGen)

namespace EntityQuery

/-- The scalars that a predicate is made of. -/
def Predicate.scalars : Predicate → List Scalar
  | .const _ => []
  | .and left right | .or left right => left.scalars ++ right.scalars
  | .not operand => operand.scalars
  | .compare _ left right => [left, right]
  | .like value pattern => [value, pattern]
  | .isNull operand | .isNotNull operand => [operand]

/-- The scalars that a fragment is made of. -/
def Fragment.scalars : Fragment → List Scalar
  | .predicate p => p.scalars
  | .value scalar _ => [scalar]
  | .literal _ _ | .deferred _ => []

/-- The scalars that a compiled expression is made of. -/
def Compiled.scalars : Compiled → List Scalar
  | .complete f => f.scalars
  | .pending (.indexOf haystack needle) => [haystack, needle]
  | .pending (.comparison _ left right) => [left, right]

/-- What is left of a compiled expression is made of its scalars. -/
theorem Compiled.scalars_fragment_subset (compiled : Compiled) :
    compiled.fragment.scalars ⊆ compiled.scalars := by
  cases compiled with
  | complete f => exact List.Subset.refl _
  | pending p => exact List.nil_subset _

/-- A condition and its negation are made of the same scalars. -/
theorem Predicate.scalars_keepIf (p : Predicate) (keep : Bool) :
    (p.keepIf keep).scalars = p.scalars := by
  cases keep with
  | true => rfl
  | false => rfl

/-- A needle and its pattern are made of the same scalars. -/
theorem Fragment.scalars_asPattern (g : Builtin) (f : Fragment) :
    (f.asPattern g).scalars = f.scalars := by
  unfold asPattern
  split
  · rfl
  · rfl

/-- An argument of a comparison function and what it stands for are made of the same scalars. -/
theorem Fragment.scalars_operand (g : Builtin) (f : Fragment) :
    (g.operand f).scalars = f.scalars := by
  unfold Builtin.operand
  split
  · unfold asInstant
    split
    · rfl
    · rfl
  · rfl

/-- Two things have a property when each of them does. -/
theorem forall_mem_pair {α : Type} {p : α → Prop} {a b : α} :
    (∀ x ∈ [a, b], p x) ↔ p a ∧ p b := by
  rw [List.forall_mem_cons, List.forall_mem_singleton]

/-- A property of the scalars of a session that is kept however compilation makes a scalar. -/
structure Scope.Keeps (s : Scope) (P : Session → Scalar → Prop) : Prop where
  /-- It is kept when joins are added and values are bound. -/
  grows {t t' : Session} {x : Scalar} (h : ReflTransGen (Session.Adds s) t t') (hx : P t x) : P t' x
  /-- The columns that properties resolve to have it. -/
  column {path : List String} {t : Session} {x : Scalar} {joins : JoinPlan}
    (h : s.resolveProperty path t.joins = .ok x joins) : P { t with joins } x
  /-- Bound parameters have it. -/
  parameter {t : Session} {name : String} {value : Value}
    (h : t.parameters.get? name = some value) : P t (.parameter name)
  /-- Constants have it. -/
  constant (t : Session) (n : Int64) : P t (.constant n)
  /-- A function of the query has it, when it takes as many arguments and these have it. -/
  function {t : Session} {f : Builtin} {args : List Scalar} (hkind : f.kind = .directValue)
    (harity : f.arity.accepts args.length = true) (hargs : ∀ x ∈ args, P t x) :
    P t (.function f args)
  /-- An arithmetic operation has it when its operands have it. -/
  arithmetic {t : Session} (op : ArithmeticOp) {x y : Scalar} (hx : P t x) (hy : P t y) :
    P t (.arithmetic op x y)
  /-- A negation has it when its operand has it. -/
  negate {t : Session} {x : Scalar} (hx : P t x) : P t (.negate x)

namespace Scope.Keeps

variable {s : Scope} {P : Session → Scalar → Prop} {joins : JoinPlan} {b b' : Binding}
  {t t' : Session}

/-! ## Lowering -/

/-- A scalar has the property when the fragment that it is the scalar of has it. -/
theorem toScalar (hP : s.Keeps P) {f : Fragment} {x : Scalar}
    (hf : ∀ x ∈ f.scalars, P ⟨joins, b⟩ x) (h : f.toScalar s.config b = .ok x b') :
    P ⟨joins, b'⟩ x := by
  rcases Fragment.toScalar_ok.mp h with ⟨ty, rfl, rfl⟩ | ⟨v, ty, w, rfl, -, rfl, rfl⟩
  · exact hf x (List.mem_singleton_self x)
  · exact hP.parameter (Binding.get?_push s.config b w)

/-- Scalars have the property when the fragments that they are the scalars of have it. -/
theorem toScalars (hP : s.Keeps P) {fs : List Fragment} {xs : List Scalar}
    (hfs : ∀ f ∈ fs, ∀ x ∈ f.scalars, P ⟨joins, b⟩ x)
    (h : Fragment.toScalars s.config fs b = .ok xs b') : ∀ x ∈ xs, P ⟨joins, b'⟩ x := by
  induction fs generalizing b xs with
  | nil =>
    obtain ⟨rfl, -⟩ := pure_eq_ok.mp h
    exact List.forall_mem_nil _
  | cons f fs ih =>
    obtain ⟨x, rest, b₁, hx, hrest, rfl⟩ := Fragment.toScalars_cons_ok.mp h
    obtain ⟨hf, hfs⟩ := List.forall_mem_cons.mp hfs
    have hfirst := Session.grows_toScalar joins hx
    have hothers :=
      Session.grows_binding joins ((Fragment.toScalars_binds s.config fs).moves.ok hrest)
    refine List.forall_mem_cons.mpr ⟨hP.grows hothers (hP.toScalar hf hx), ih ?_ hrest⟩
    intro g hmem y hy
    exact hP.grows hfirst (hfs g hmem y hy)

/-- Two scalars that are lowered one after the other have the property when the fragments that they
are the scalars of have it. -/
theorem toScalar_pair (hP : s.Keeps P) {f g : Fragment} {x y : Scalar} {b₁ : Binding}
    (hf : ∀ x ∈ f.scalars, P ⟨joins, b⟩ x) (hg : ∀ x ∈ g.scalars, P ⟨joins, b⟩ x)
    (hx : f.toScalar s.config b = .ok x b₁) (hy : g.toScalar s.config b₁ = .ok y b') :
    ∀ z ∈ [x, y], P ⟨joins, b'⟩ z := by
  have hscalars : Fragment.toScalars s.config [f, g] b = .ok [x, y] b' :=
    Fragment.toScalars_cons_ok.mpr ⟨x, [y], b₁, hx,
      Fragment.toScalars_cons_ok.mpr ⟨y, [], b', hy, rfl, rfl⟩, rfl⟩
  exact hP.toScalars (forall_mem_pair.mpr ⟨hf, hg⟩) hscalars

/-- A predicate has the property when the fragment that it is the predicate of has it. -/
theorem toPredicate (hP : s.Keeps P) {f : Fragment} {p : Predicate}
    (hf : ∀ x ∈ f.scalars, P ⟨joins, b⟩ x) (h : f.toPredicate s.config b = .ok p b') :
    ∀ x ∈ p.scalars, P ⟨joins, b'⟩ x := by
  have hgrows := Session.grows_toPredicate joins h
  rcases Fragment.toPredicate_ok h with ⟨rfl, -⟩ | ⟨v, ty, rfl, rfl, -⟩ | ⟨x, rfl, rfl, rfl⟩
  · intro x hmem
    exact hP.grows hgrows (hf x hmem)
  · exact List.forall_mem_nil _
  · -- The truth value that a value is compared with is bound.
    refine forall_mem_pair.mpr ⟨?_, hP.parameter (Binding.get?_push s.config b _)⟩
    exact hP.grows hgrows (hf x (List.mem_singleton_self x))

/-! ## Calls and comparisons -/

/-- What a call is compiled to has the property when its arguments have it. -/
theorem compiles (hP : s.Keeps P) {f : Builtin} {args : List Fragment} {compiled : Compiled}
    (h : f.Compiles s.config args b compiled b')
    (hargs : ∀ g ∈ args, ∀ x ∈ g.scalars, P ⟨joins, b⟩ x) :
    ∀ x ∈ compiled.scalars, P ⟨joins, b'⟩ x := by
  cases h with
  | function hkind harity hscalars =>
    rw [← Fragment.length_toScalars hscalars] at harity
    exact List.forall_mem_singleton.mpr
      (hP.function hkind harity (hP.toScalars hargs hscalars))
  | @pattern first second _ _ _ _ _ hkind hvalue hpattern =>
    obtain ⟨hfirst, hsecond⟩ := forall_mem_pair.mp hargs
    have hboth : (∀ x ∈ (f.haystackFirst first second).1.scalars, P ⟨joins, b⟩ x) ∧
        ∀ x ∈ ((f.haystackFirst first second).2.asPattern f).scalars, P ⟨joins, b⟩ x := by
      rw [Fragment.scalars_asPattern]
      unfold Builtin.haystackFirst
      split
      · exact ⟨hsecond, hfirst⟩
      · exact ⟨hfirst, hsecond⟩
    exact hP.toScalar_pair hboth.1 hboth.2 hvalue hpattern
  | comparison hkind hleft hright =>
    obtain ⟨hfirst, hsecond⟩ := forall_mem_pair.mp hargs
    rw [← Fragment.scalars_operand f] at hfirst hsecond
    exact hP.toScalar_pair hfirst hsecond hleft hright
  | position hkind hhaystack hneedle =>
    obtain ⟨hfirst, hsecond⟩ := forall_mem_pair.mp hargs
    exact hP.toScalar_pair hfirst hsecond hhaystack hneedle

/-- The text that is cut out to look at a position has the property when its parts have it. -/
theorem found (hP : s.Keeps P) {haystack needle position : Scalar} (hhaystack : P t haystack)
    (hneedle : P t needle) (hposition : P t position) :
    ∀ x ∈ (Pending.found haystack needle position).scalars, P t x := by
  refine forall_mem_pair.mpr ⟨hP.function rfl rfl ?_, hneedle⟩
  rw [List.forall_mem_cons]
  refine ⟨hhaystack, forall_mem_pair.mpr ⟨hP.constant t 0, ?_⟩⟩
  exact hP.arithmetic .add hposition (hP.constant t 1)

/-- What a comparison is compiled to has the property when its operands have it. -/
theorem compares (hP : s.Keeps P) {op : RelationalOp} {left : Compiled} {right : Fragment}
    {p : Predicate} (h : Compares s.config op left right b p b')
    (hleft : ∀ x ∈ left.scalars, P ⟨joins, b⟩ x) (hright : ∀ x ∈ right.scalars, P ⟨joins, b⟩ x) :
    ∀ x ∈ p.scalars, P ⟨joins, b'⟩ x := by
  cases h with
  | position hop hk =>
    obtain ⟨hhaystack, hneedle⟩ := forall_mem_pair.mp hleft
    have hgrows := Session.grows_toScalar joins hk
    rw [Predicate.scalars_keepIf]
    exact hP.found (hP.grows hgrows hhaystack) (hP.grows hgrows hneedle) (hP.toScalar hright hk)
  | zero hop hzero =>
    split
    · exact hleft
    · exact hleft
  | literal hbool hkeep =>
    rw [Predicate.scalars_keepIf]
    exact hleft
  | literalLeft hbool hkeep =>
    rw [Predicate.scalars_keepIf]
    exact hright
  | nulls _ _ hop => exact List.forall_mem_nil _
  | nullRight _ _ hop hscalar =>
    have hoperand := hP.toScalar hleft hscalar
    split
    · exact List.forall_mem_singleton.mpr hoperand
    · exact List.forall_mem_singleton.mpr hoperand
  | nullLeft _ _ hop hscalar =>
    have hoperand := hP.toScalar hright hscalar
    split
    · exact List.forall_mem_singleton.mpr hoperand
    · exact List.forall_mem_singleton.mpr hoperand
  | values _ _ horder hx hy => exact hP.toScalar_pair hleft hright hx hy

/-! ## Whole runs -/

/-- Every scalar that a compiled expression is made of has the property. -/
theorem visit (hP : s.Keeps P) {depth : Nat} {e : Expr} {compiled : Compiled}
    (h : s.visit depth e t = .ok compiled t') : ∀ x ∈ compiled.scalars, P t' x := by
  refine visit_ok_induct
    (M := fun _ _ compiled t' => ∀ x ∈ compiled.scalars, P t' x)
    (N := fun _ _ fragments t' => ∀ f ∈ fragments, ∀ x ∈ f.scalars, P t' x)
    ?constant ?property ?call ?negate ?not ?arithmetic ?logical ?relational ?nil ?cons h
  case constant =>
    intro value ty t _
    exact List.forall_mem_nil _
  case property =>
    intro path ty t column joins hcolumn _
    exact List.forall_mem_singleton.mpr (hP.column hcolumn)
  case call =>
    intro f args t fragments t₁ compiled binding hargs _ hcompiles _
    exact hP.compiles hcompiles hargs
  case negate =>
    intro operand t compiled t₁ scalar binding hoperand _ hscalar _
    have hfragment := fun x hx => hoperand x (compiled.scalars_fragment_subset hx)
    exact List.forall_mem_singleton.mpr (hP.negate (hP.toScalar hfragment hscalar))
  case not =>
    intro operand t compiled t₁ p binding hoperand _ hp _
    show ∀ x ∈ p.scalars, P { t₁ with binding } x
    exact hP.toPredicate (fun x hx => hoperand x (compiled.scalars_fragment_subset hx)) hp
  case arithmetic =>
    intro op left right t l t₁ r t₂ x b₁ y b₂ hleft _ hright hgrows hx hy _
    have hl := fun x hx => hP.grows hgrows (hleft x (l.scalars_fragment_subset hx))
    have hr := fun x hx => hright x (r.scalars_fragment_subset hx)
    obtain ⟨hx, hy⟩ := forall_mem_pair.mp (hP.toScalar_pair hl hr hx hy)
    exact List.forall_mem_singleton.mpr (hP.arithmetic op hx hy)
  case logical =>
    intro op left right t l t₁ p b₁ r t₂ q b₂ hleft _ hp hright hgrows hq _
    have hl := hP.toPredicate (fun x hx => hleft x (l.scalars_fragment_subset hx)) hp
    have hr := hP.toPredicate (fun x hx => hright x (r.scalars_fragment_subset hx)) hq
    have hbinds := Session.grows_toPredicate t₂.joins hq
    have hconnective : (connective op p q).scalars = p.scalars ++ q.scalars := by
      cases op with
      | and => rfl
      | or => rfl
    show ∀ x ∈ (connective op p q).scalars, P { t₂ with binding := b₂ } x
    rw [hconnective, List.forall_mem_append]
    exact ⟨fun x hx => hP.grows (hgrows.trans hbinds) (hl x hx), hr⟩
  case relational =>
    intro op left right t l t₁ r t₂ p binding hleft _ hright hgrows hcompares _
    exact hP.compares hcompares (fun x hx => hP.grows hgrows (hleft x hx))
      (fun x hx => hright x (r.scalars_fragment_subset hx))
  case nil =>
    intro t
    exact List.forall_mem_nil _
  case cons =>
    intro e es t compiled t₁ fragments t₂ he _ hes hgrows
    refine List.forall_mem_cons.mpr ⟨?_, hes⟩
    intro x hx
    exact hP.grows hgrows (he x (compiled.scalars_fragment_subset hx))

/-- Every scalar of a compiled condition has the property. -/
theorem condition (hP : s.Keeps P) {e : Expr} {p : Predicate} (h : s.condition e t = .ok p t') :
    ∀ x ∈ p.scalars, P t' x := by
  obtain ⟨compiled, t₁, binding, hvisit, hp, rfl⟩ := condition_ok.mp h
  exact hP.toPredicate
    (fun x hx => hP.visit hvisit x (compiled.scalars_fragment_subset hx)) hp

/-- A compiled value has the property. -/
theorem value (hP : s.Keeps P) {e : Expr} {x : Scalar} (h : s.value e t = .ok x t') : P t' x := by
  obtain ⟨compiled, t₁, binding, hvisit, hx, rfl⟩ := value_ok.mp h
  exact hP.toScalar (fun x hx => hP.visit hvisit x (compiled.scalars_fragment_subset hx)) hx

end Scope.Keeps

end EntityQuery
