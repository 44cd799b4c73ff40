import EntityQuery.Proofs.Meaning
import EntityQuery.Proofs.Payloads
import EntityQuery.Proofs.References
import EntityQuery.Proofs.Scalars

/-!
# Calls that wait for a comparison

The result of `indexof` and of the three comparison functions is only good for the comparison around
the call, and `waiting_calls_resolved` says that none of them is lost on the way: in an expression
that is compiled, each stands on the left of a comparison that can resolve it, and what the
expression is compiled to calls functions of the query only.

A `Surrounding` is what the rest of an expression says about one of its parts. A call that was
compiled waits, so what carries the induction over a run is a promise: the waiting calls of a part
are resolved where the part stands, provided that the part itself is, if it still waits
(`Scope.promises_visit`). A node keeps the promise for its operands because lowering refuses what
waits.
-/

namespace EntityQuery

/-! ## Calls in expressions -/

/-- Whether the result of a function is only good for the comparison around the call. -/
def Builtin.waits : Builtin → Bool
  | .indexOf | .stringCompare | .dateTimeCompare | .guidCompare => true
  | _ => false

/-- Where a part of an expression stands. -/
inductive Surrounding
  /-- On the left of a comparison, with the other operand. -/
  | compared (op : RelationalOp) (right : Expr)
  | elsewhere

/-- The comparison in which a call stands can resolve it: a position is compared for equality, and a
comparison function is compared with zero, for equality unless it compares points in time. -/
def Surrounding.Resolves (f : Builtin) : Surrounding → Prop
  | .compared op right =>
    (op.isEquality = true ∨ f = .dateTimeCompare) ∧ (f ≠ .indexOf → right.isZero = true)
  | .elsewhere => False

/-- The calls in an expression that stands somewhere, each with where it stands. -/
def Expr.calls (around : Surrounding) : Expr → List (Builtin × Surrounding)
  | .call f args => (f, around) :: callsOfAll args
  | .unary _ operand => operand.calls .elsewhere
  | .arithmetic _ left right | .logical _ left right =>
    left.calls .elsewhere ++ right.calls .elsewhere
  | .relational op left right => left.calls (.compared op right) ++ right.calls .elsewhere
  | .property _ _ | .constant _ _ => []
where
  /-- The calls in the arguments of a call. -/
  callsOfAll : List Expr → List (Builtin × Surrounding)
    | [] => []
    | e :: es => e.calls .elsewhere ++ callsOfAll es

/-- Every call of the list that waits is resolved where it stands. -/
def AllResolved (calls : List (Builtin × Surrounding)) : Prop :=
  ∀ call ∈ calls, call.1.waits = true → call.2.Resolves call.1

/-- Calls are resolved when those of both lists are. -/
theorem allResolved_append {calls calls' : List (Builtin × Surrounding)} (h : AllResolved calls)
    (h' : AllResolved calls') : AllResolved (calls ++ calls') :=
  List.forall_mem_append.mpr ⟨h, h'⟩

/-- A function waits when it is compiled as a position or as a comparison with zero. -/
theorem Builtin.waits_iff {f : Builtin} :
    f.waits = true ↔ f.kind = .indexOf ∨ f.kind = .opaqueComparison := by
  cases f <;> decide

/-! ## Lowering -/

section

variable {c : Config} {b b' : Binding}

/-- What is not lost does not wait. -/
theorem Compiled.ne_pending {compiled : Compiled} (h : compiled.fragment.isDeferred = false)
    (p : Pending) : compiled ≠ .pending p := by
  rintro rfl
  cases h

/-- A call that waits is compiled to one that does, of the same function. -/
theorem Builtin.Compiles.pending {f : Builtin} {args : List Fragment} {compiled : Compiled}
    (h : f.Compiles c args b compiled b') (hwaits : f.waits = true) :
    ∃ p, compiled = .pending p ∧ p.function = f := by
  rw [Builtin.waits_iff] at hwaits
  cases h with
  | function hkind => simp [hkind] at hwaits
  | pattern hkind => simp [hkind] at hwaits
  | comparison hkind => exact ⟨_, rfl, rfl⟩
  | position hkind => exact ⟨_, rfl, (eq_indexOf_of_kind hkind).symm⟩

/-- A call is compiled to no literal. -/
theorem Builtin.Compiles.not_isZero {f : Builtin} {args : List Fragment} {compiled : Compiled}
    (h : f.Compiles c args b compiled b') : compiled.fragment.isZero = false := by
  cases h <;> rfl

/-- What has a predicate is not lost. -/
theorem Fragment.isDeferred_of_toPredicate {f : Fragment} {p : Predicate}
    (h : f.toPredicate c b = .ok p b') : f.isDeferred = false :=
  (Fragment.count_toPredicate h "").1

/-- What is compared on the right is not lost. -/
theorem Scope.Compares.isDeferred {op : RelationalOp} {left : Compiled} {right : Fragment}
    {p : Predicate} (h : Scope.Compares c op left right b p b') : right.isDeferred = false :=
  (h.count "").1

/-- The arguments of a call that is compiled are not lost. -/
theorem Builtin.Compiles.isDeferred {f : Builtin} {args : List Fragment} {compiled : Compiled}
    (h : f.Compiles c args b compiled b') : ∀ g ∈ args, g.isDeferred = false :=
  (h.count "").1

/-- A call that waits and is compared is resolved by the comparison. -/
theorem Scope.Compares.resolves {op : RelationalOp} {left : Compiled} {right : Fragment}
    {p : Predicate} {e : Expr} (h : Scope.Compares c op left right b p b')
    (hzero : right.isZero = true → e.isZero = true) {pending : Pending}
    (hleft : left = .pending pending) : (Surrounding.compared op e).Resolves pending.function := by
  cases h with
  | position hop hk =>
    cases hleft
    exact ⟨.inl hop, fun hne => absurd rfl hne⟩
  | zero hop hright =>
    cases hleft
    rw [Bool.or_eq_true, beq_iff_eq] at hop
    exact ⟨hop, fun _ => hzero hright⟩
  | _ => cases hleft

end

/-! ## Whole runs -/

/-- What is known of an expression by what it was compiled to. -/
structure Expr.Promises (e : Expr) (compiled : Compiled) : Prop where
  /-- What became a zero was one. -/
  zero : compiled.fragment.isZero = true → e.isZero = true
  /-- Its waiting calls are resolved wherever it stands, when the expression itself is, if it
  waits. -/
  calls : ∀ around : Surrounding, (∀ p, compiled = .pending p → around.Resolves p.function) →
    AllResolved (e.calls around)

/-- The waiting calls of an expression that does not wait are resolved. -/
theorem Expr.Promises.elsewhere {e : Expr} {compiled : Compiled} (h : e.Promises compiled)
    (hdeferred : compiled.fragment.isDeferred = false) : AllResolved (e.calls .elsewhere) :=
  h.calls .elsewhere fun p hp => absurd hp (compiled.ne_pending hdeferred p)

namespace Scope

variable {s : Scope} {t t' : Session}

/-- The waiting calls of an expression that was compiled are resolved where it stands, when the
expression itself is, if it waits. -/
theorem promises_visit {depth : Nat} {e : Expr} {compiled : Compiled}
    (h : s.visit depth e t = .ok compiled t') : e.Promises compiled := by
  refine visit_ok_induct
    (M := fun e _ compiled _ => e.Promises compiled)
    (N := fun es _ fragments _ => (∀ f ∈ fragments, f.isDeferred = false) →
      AllResolved (Expr.calls.callsOfAll es))
    ?constant ?property ?call ?negate ?not ?arithmetic ?logical ?relational ?nil ?cons h
  case constant =>
    intro value ty t _
    refine ⟨?_, fun _ _ => List.forall_mem_nil _⟩
    cases value <;> exact id
  case property =>
    intro path ty t column joins _ _
    exact ⟨nofun, fun _ _ => List.forall_mem_nil _⟩
  case call =>
    intro f args t fragments t₁ compiled binding hargs _ hcompiles _
    refine ⟨fun h => ?_, fun around haround => List.forall_mem_cons.mpr ⟨fun hwaits => ?_, ?_⟩⟩
    · rw [hcompiles.not_isZero] at h
      cases h
    · obtain ⟨p, hp, rfl⟩ := hcompiles.pending hwaits
      exact haround p hp
    · exact hargs hcompiles.isDeferred
  case negate =>
    intro operand t compiled t₁ scalar binding hoperand _ hscalar _
    exact ⟨nofun, fun _ _ => hoperand.elsewhere (Fragment.isDeferred_of_toScalar hscalar)⟩
  case not =>
    intro operand t compiled t₁ p binding hoperand _ hp _
    exact ⟨nofun, fun _ _ => hoperand.elsewhere (Fragment.isDeferred_of_toPredicate hp)⟩
  case arithmetic =>
    intro op left right t l t₁ r t₂ x b₁ y b₂ hleft _ hright _ hx hy _
    exact ⟨nofun, fun _ _ => allResolved_append
      (hleft.elsewhere (Fragment.isDeferred_of_toScalar hx))
      (hright.elsewhere (Fragment.isDeferred_of_toScalar hy))⟩
  case logical =>
    intro op left right t l t₁ p b₁ r t₂ q b₂ hleft _ hp hright _ hq _
    exact ⟨nofun, fun _ _ => allResolved_append
      (hleft.elsewhere (Fragment.isDeferred_of_toPredicate hp))
      (hright.elsewhere (Fragment.isDeferred_of_toPredicate hq))⟩
  case relational =>
    intro op left right t l t₁ r t₂ p binding hleft _ hright _ hcompares _
    -- The comparison resolves the left operand, and the right one does not wait.
    exact ⟨nofun, fun _ _ => allResolved_append
      (hleft.calls _ fun pending hpending => hcompares.resolves hright.zero hpending)
      (hright.elsewhere hcompares.isDeferred)⟩
  case nil =>
    intro t _
    exact List.forall_mem_nil _
  case cons =>
    intro e es t compiled t₁ fragments t₂ he _ hes _ hdeferred
    obtain ⟨hfirst, hothers⟩ := List.forall_mem_cons.mp hdeferred
    exact allResolved_append (he.elsewhere hfirst) (hes hothers)

end Scope

/-! ## Calls in what is compiled -/

/-- The calls in a scalar, each with the number of its arguments. -/
def Scalar.calls : Scalar → List (Builtin × Nat)
  | .column _ _ | .parameter _ | .constant _ => []
  | .function f args => (f, args.length) :: callsOfAll args
  | .arithmetic _ left right => left.calls ++ right.calls
  | .negate operand => operand.calls
where
  /-- The calls in some scalars. -/
  callsOfAll : List Scalar → List (Builtin × Nat)
    | [] => []
    | scalar :: scalars => scalar.calls ++ callsOfAll scalars

/-- The calls in a predicate, each with the number of its arguments. -/
def Predicate.calls (p : Predicate) : List (Builtin × Nat) := p.scalars.flatMap Scalar.calls

/-- A call is one of a function of the query, with as many arguments as it takes. -/
def IsQueryCall (call : Builtin × Nat) : Prop :=
  call.1.kind = .directValue ∧ call.1.arity.accepts call.2 = true

/-- The calls in some scalars are those of each. -/
theorem Scalar.callsOfAll_eq_flatMap (scalars : List Scalar) :
    Scalar.calls.callsOfAll scalars = scalars.flatMap Scalar.calls := by
  induction scalars with
  | nil => rfl
  | cons scalar scalars ih => rw [Scalar.calls.callsOfAll, ih, List.flatMap_cons]

namespace Scope

variable {s : Scope} {t t' : Session}

/-- Compilation keeps that only functions of the query are called. -/
theorem keeps_isQueryCall (s : Scope) :
    s.Keeps fun _ x => ∀ call ∈ x.calls, IsQueryCall call where
  grows _ hx := hx
  column h := by
    obtain ⟨last, place, name, -, -, -, rfl⟩ := resolveProperty_ok h
    exact List.forall_mem_nil _
  parameter _ := List.forall_mem_nil _
  constant _ _ := List.forall_mem_nil _
  function hkind harity hargs := by
    refine List.forall_mem_cons.mpr ⟨⟨hkind, harity⟩, fun call hmem => ?_⟩
    rw [Scalar.callsOfAll_eq_flatMap, List.mem_flatMap] at hmem
    obtain ⟨x, hx, hmem⟩ := hmem
    exact hargs x hx call hmem
  arithmetic _ _ _ hx hy := List.forall_mem_append.mpr ⟨hx, hy⟩
  negate hx := hx

/-- A condition that is compiled has its waiting calls resolved, and calls functions of the query
only. -/
theorem calls_of_condition {e : Expr} {p : Predicate} (h : s.condition e t = .ok p t') :
    AllResolved (e.calls .elsewhere) ∧ ∀ call ∈ p.calls, IsQueryCall call := by
  obtain ⟨compiled, t₁, binding, hvisit, hp, -⟩ := condition_ok.mp h
  refine ⟨(promises_visit hvisit).elsewhere (Fragment.isDeferred_of_toPredicate hp), ?_⟩
  intro call hmem
  obtain ⟨x, hx, hmem⟩ := List.mem_flatMap.mp hmem
  exact s.keeps_isQueryCall.condition h x hx call hmem

/-- A value that is compiled has its waiting calls resolved, and calls functions of the query
only. -/
theorem calls_of_value {e : Expr} {x : Scalar} (h : s.value e t = .ok x t') :
    AllResolved (e.calls .elsewhere) ∧ ∀ call ∈ x.calls, IsQueryCall call := by
  obtain ⟨compiled, t₁, binding, hvisit, hx, -⟩ := value_ok.mp h
  exact ⟨(promises_visit hvisit).elsewhere (Fragment.isDeferred_of_toScalar hx),
    s.keeps_isQueryCall.value h⟩

/-- No call that waits for a comparison is lost. Whatever is compiled from an expression, as a
condition, as a value or as a sort key, every call of `indexof` and of the comparison functions in
the expression stands on the left of a comparison that resolves it, and what is compiled calls
functions of the query only, each with as many arguments as it takes. -/
theorem waiting_calls_resolved (s : Scope) (e : Expr) (t t' : Session) :
    (∀ p, s.condition e t = .ok p t' →
      AllResolved (e.calls .elsewhere) ∧ ∀ call ∈ p.calls, IsQueryCall call) ∧
    (∀ x, s.value e t = .ok x t' →
      AllResolved (e.calls .elsewhere) ∧ ∀ call ∈ x.calls, IsQueryCall call) ∧
    ∀ direction sortKey, s.sortKey ⟨e, direction⟩ t = .ok sortKey t' →
      AllResolved (e.calls .elsewhere) ∧ ∀ call ∈ sortKey.scalar.calls, IsQueryCall call := by
  refine ⟨fun p h => calls_of_condition h, fun x h => calls_of_value h, ?_⟩
  intro direction sortKey h
  obtain ⟨x, t₁, hx, h⟩ := bind_eq_ok.mp h
  obtain ⟨rfl, rfl⟩ := pure_eq_ok.mp h
  exact calls_of_value hx

end Scope

/-- A search of the shop has its two waiting calls resolved, and sorting by a part of a name calls
functions of the query. -/
theorem Shop.lookup_waiting_calls_resolved :
    (∃ p t, customers.condition (lookup "smith" "2024-02-29" 0) .start = .ok p t ∧
      AllResolved ((lookup "smith" "2024-02-29" 0).calls .elsewhere) ∧
      ∀ call ∈ p.calls, IsQueryCall call) ∧
    ∃ x t, customers.value namePart .start = .ok x t ∧
      AllResolved (namePart.calls .elsewhere) ∧ ∀ call ∈ x.calls, IsQueryCall call := by
  constructor
  · obtain ⟨f, h⟩ := exists_of_isOk
      (show (customers.compileFilter (lookup "smith" "2024-02-29" 0)).isOk = true by
        decide +kernel)
    obtain ⟨t, hrun, -⟩ := Scope.compileFilter_ok h
    exact ⟨f.predicate, t, hrun, (customers.waiting_calls_resolved _ _ _).1 _ hrun⟩
  · obtain ⟨x, t, hrun⟩ := exists_of_succeeds
      (show succeeds (customers.value namePart .start) = true by decide +kernel)
    exact ⟨x, t, hrun, (customers.waiting_calls_resolved _ _ _).2.1 _ hrun⟩

end EntityQuery
