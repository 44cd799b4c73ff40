import EntityQuery.Proofs.Aliases
import EntityQuery.Proofs.Evaluation
import EntityQuery.Proofs.Failures
import EntityQuery.Proofs.FilterReading
import EntityQuery.Proofs.Resolutions
import EntityQuery.Proofs.Sessions
import EntityQuery.Sample.Orders

/-!
# Names in typed expressions

Typing and planning walk paths on their own, typing over the model alone and planning over the joins
that earlier paths have left behind. An expression `IsNamed` when all of its paths name columns and
all of its calls are of a number of arguments that the function accepts. What is typed is named
(`Typing.expr_isNamed`). Over sound joins a path of which the model knows every navigation is
resolved (`Scope.resolve_of_walk`), whether its joins are there or not, so a named expression is
compiled or fails in use (`Scope.visit_failsInUse`): planning finds every name that typing has found
(`Scope.typed_names_found`).
-/

open Relation (ReflTransGen)

namespace EntityQuery

mutual

/-- Expressions whose names are known: every path names a column, and every call is of a number of
arguments that its function accepts. -/
inductive Expr.IsNamed (s : Scope) : Expr → Prop
  | logical (op : LogicalOp) {left right : Expr} (hleft : left.IsNamed s)
      (hright : right.IsNamed s) : IsNamed s (.logical op left right)
  | arithmetic (op : ArithmeticOp) {left right : Expr} (hleft : left.IsNamed s)
      (hright : right.IsNamed s) : IsNamed s (.arithmetic op left right)
  | relational (op : RelationalOp) {left right : Expr} (hleft : left.IsNamed s)
      (hright : right.IsNamed s) : IsNamed s (.relational op left right)
  | unary (op : UnaryOp) {operand : Expr} (h : operand.IsNamed s) : IsNamed s (.unary op operand)
  | property {path : List String} {column : String} (h : s.columnOf? path = some column)
      (ty : EdmType) : IsNamed s (.property path ty)
  | call {f : Builtin} {args : List Expr} (harity : f.arity.accepts args.length = true)
      (h : Expr.AllNamed s args) : IsNamed s (.call f args)
  | constant (value : Value) (ty : EdmType) : IsNamed s (.constant value ty)

/-- Expressions of which each is named. -/
inductive Expr.AllNamed (s : Scope) : List Expr → Prop
  | nil : AllNamed s []
  | cons {e : Expr} {es : List Expr} (h : e.IsNamed s) (hes : Expr.AllNamed s es) :
      AllNamed s (e :: es)

end

/-! ## Typing -/

namespace Typing

variable {s : Scope}

/-- What typing walks over are the navigations of the model. -/
theorem walk_ok {m : Metadata} {span : Span} {entity target : String} {segments : List String}
    (h : walk m span entity segments = .ok target) : m.walk? entity segments = some target := by
  induction segments generalizing entity with
  | nil =>
    cases h
    rfl
  | cons segment segments ih =>
    unfold walk at h
    split at h
    next next hstep =>
      unfold Metadata.walk?
      rw [hstep]
      exact ih h
    next => cases h

/-- Typing gets over the navigations of the model to where they lead. -/
theorem walk_append {m : Metadata} {entity target : String} {segments : List String}
    (h : m.walk? entity segments = some target) (span : Span) (rest : List String) :
    walk m span entity (segments ++ rest) = walk m span target rest := by
  induction segments generalizing entity with
  | nil =>
    cases h
    rfl
  | cons segment segments ih =>
    obtain ⟨next, hstep, hrest⟩ := Option.bind_eq_some_iff.mp h
    rw [List.cons_append, walk, hstep]
    exact ih hrest

/-- The last segment of a path that is typed stands for a column of every place of its entity
type. -/
theorem lastType_ok {span : Span} {entity last : String} {ty : EdmType}
    (h : lastType s.metadata span entity last = .ok ty) :
    ∃ column, s.column? ⟨none, entity⟩ last = some column := by
  unfold lastType at h
  unfold Scope.column?
  split at h
  next hscalar => exact ⟨last, if_pos hscalar⟩
  next hscalar =>
    rw [if_neg hscalar]
    split at h
    next hnavigation =>
      rw [if_pos hnavigation]
      split at h
      next column hkey => exact ⟨column, hkey⟩
      next => cases h
    next => cases h

/-- A segment that stands for a column has the type of this column. -/
theorem lastType_of_column {place : Place} {last column : String} {ty : EdmType}
    (h : s.column? place last = some column)
    (htype : s.metadata.scalarType? place.entity column = some ty) (span : Span) :
    lastType s.metadata span place.entity last = .ok ty := by
  unfold Scope.column? at h
  unfold lastType
  dsimp only
  split at h
  next hscalar =>
    -- A scalar property is its own column.
    cases h
    rw [if_pos hscalar, htype]
  next hscalar =>
    split at h
    next hnavigation =>
      -- The column of a navigation is that of its key.
      rw [if_neg hscalar, if_pos hnavigation, h]
      dsimp only
      rw [htype]
      rfl
    next => cases h

/-- A segment that stands for no column is unknown. -/
theorem lastType_of_no_column {place : Place} {last : String} (h : s.column? place last = none)
    (span : Span) :
    lastType s.metadata span place.entity last =
      .error ⟨.unknownProperty place.entity last, span⟩ := by
  unfold Scope.column? at h
  unfold lastType
  dsimp only
  split at h
  next => cases h
  next hscalar =>
    rw [if_neg hscalar]
    split at h
    next hnavigation => rw [if_pos hnavigation, h]
    next hnavigation => rw [if_neg hnavigation]

/-- A path that is typed names a column. -/
theorem pathType_ok {path : List String} {span : Span} {ty : EdmType}
    (h : pathType s.metadata s.root path span = .ok ty) :
    ∃ column, s.columnOf? path = some column := by
  unfold pathType at h
  unfold Scope.columnOf?
  split at h
  next => cases h
  next last hlast =>
    obtain ⟨entity, hwalk, hty⟩ := except_bind_eq_ok.mp h
    obtain ⟨column, hcolumn⟩ := lastType_ok hty
    refine ⟨column, ?_⟩
    rw [walk_ok hwalk, hlast]
    exact hcolumn

/-- A function that is found for a call accepts the number of its arguments. -/
theorem function_ok {name : Located String} {n : Nat} {span : Span} {f : Builtin}
    (h : function name n span = .ok f) : f.arity.accepts n = true := by
  unfold function at h
  split at h
  next => cases h
  next =>
    split at h
    next haccepts =>
      cases h
      exact haccepts
    next => cases h

/-- A literal is typed to a constant. -/
theorem constant_isNamed {literal : Literal} {span : Span} {e : Expr}
    (h : constant literal span = .ok e) : e.IsNamed s := by
  cases literal with
  | int n =>
    -- As narrow as it can be, or not.
    unfold constant at h
    dsimp only at h
    split at h
    all_goals
      cases h
      exact .constant _ _
  | double x =>
    unfold constant at h
    dsimp only at h
    split at h
    next =>
      cases h
      exact .constant _ _
    next => cases h
  | _ =>
    cases h
    exact .constant _ _

/-- An operation on named operands is named. -/
theorem binary_isNamed {left right : Expr} (op : BinaryOp) (hleft : left.IsNamed s)
    (hright : right.IsNamed s) : (binary op left right).IsNamed s := by
  cases op with
  | logical op => exact .logical op hleft hright
  | relational op => exact .relational op hleft hright
  | arithmetic op => exact .arithmetic op hleft hright

/-- A prefix operator is typed with its operand, unless the two are a literal. -/
theorem expr_unary_ok {m : Metadata} {root : String} {op : UnaryOp} {operand : Syntax} {span : Span}
    {typed : Expr} (h : expr m root (.unary op operand span) = .ok typed) :
    (∃ literal span, constant literal span = .ok typed) ∨
      ∃ inner, expr m root operand = .ok inner ∧ typed = .unary op inner := by
  rcases expr_unary_cases h with ⟨_, _, negated, -, -, -, hconstant⟩ | hinner
  · exact .inl ⟨negated, span, hconstant⟩
  · exact .inr hinner

/-- What is typed is named. -/
theorem expr_isNamed {e : Syntax} {typed : Expr} (h : expr s.metadata s.root e = .ok typed) :
    typed.IsNamed s := by
  induction e using @Syntax.rec _
    (fun es => ∀ typed, expr.exprs s.metadata s.root es = .ok typed →
      Expr.AllNamed s typed ∧ typed.length = es.length)
    generalizing typed with
  | binary op left right span ihl ihr =>
    unfold expr at h
    obtain ⟨l, hleft, h⟩ := except_bind_eq_ok.mp h
    obtain ⟨r, hright, h⟩ := except_bind_eq_ok.mp h
    cases h
    exact binary_isNamed op (ihl hleft) (ihr hright)
  | unary op operand span ih =>
    rcases expr_unary_ok h with ⟨literal, span, h⟩ | ⟨inner, hoperand, rfl⟩
    · exact constant_isNamed h
    · exact .unary op (ih hoperand)
  | path segments span =>
    unfold expr at h
    obtain ⟨ty, hty, h⟩ := except_bind_eq_ok.mp h
    cases h
    obtain ⟨column, hcolumn⟩ := pathType_ok hty
    exact .property hcolumn ty
  | call name args span ih =>
    unfold expr at h
    obtain ⟨f, hf, h⟩ := except_bind_eq_ok.mp h
    obtain ⟨typed, hargs, h⟩ := except_bind_eq_ok.mp h
    cases h
    obtain ⟨hnamed, hlength⟩ := ih typed hargs
    exact .call (hlength ▸ function_ok hf) hnamed
  | literal value span =>
    unfold expr at h
    exact constant_isNamed h
  | nil =>
    rename_i h
    cases h
    exact ⟨.nil, rfl⟩
  | cons e es ihe ihes =>
    rename_i h
    unfold expr.exprs at h
    obtain ⟨first, he, h⟩ := except_bind_eq_ok.mp h
    obtain ⟨rest, hes, h⟩ := except_bind_eq_ok.mp h
    cases h
    obtain ⟨hnamed, hlength⟩ := ihes rest hes
    exact ⟨.cons (ihe he) hnamed, congrArg (· + 1) hlength⟩

/-- Keys that are typed come from items. -/
theorem mapM_orderKey_ok {m : Metadata} {root : String} {items : List OrderItem}
    {keys : List OrderKey} (h : items.mapM (orderKey m root) = .ok keys) :
    ∀ key ∈ keys, ∃ item ∈ items, orderKey m root item = .ok key := by
  induction items generalizing keys with
  | nil =>
    cases h
    exact fun _ hmem => (List.not_mem_nil hmem).elim
  | cons item items ih =>
    rw [List.mapM_cons] at h
    obtain ⟨first, hfirst, h⟩ := except_bind_eq_ok.mp h
    obtain ⟨rest, hrest, h⟩ := except_bind_eq_ok.mp h
    cases h
    intro key hmem
    rcases List.mem_cons.mp hmem with rfl | hmem
    · exact ⟨item, List.mem_cons_self, hfirst⟩
    · obtain ⟨item', hmem', hitem⟩ := ih hrest key hmem
      exact ⟨item', List.mem_cons_of_mem _ hmem', hitem⟩

end Typing

namespace Scope

variable {s : Scope} {plan plan' : JoinPlan}

/-! ## Resolution -/

/-- A path that names a column is resolved to that column. -/
theorem resolveProperty_of_columnOf {path : List String} {column : String} (hplan : s.Sound plan)
    (h : s.columnOf? path = some column) :
    ∃ (place : Place) (plan' : JoinPlan),
      s.resolveProperty path plan = .ok (.column place.alias? column) plan' := by
  obtain ⟨entity, hwalk, h⟩ := Option.bind_eq_some_iff.mp h
  obtain ⟨last, hlast, hcolumn⟩ := Option.bind_eq_some_iff.mp h
  obtain ⟨place, plan', hresolve, rfl⟩ := resolve_of_walk hplan hwalk
  refine ⟨place, plan', ?_⟩
  -- Which column a property stands for does not depend on the alias of its place.
  have hsame : s.column? place last = some column := hcolumn
  unfold resolveProperty
  rw [hlast]
  refine bind_eq_ok.mpr ⟨place, plan', hresolve, ?_⟩
  rw [hsame]
  rfl

/-- Resolving a path that names a column does not fail, and keeps sound joins sound. -/
theorem resolveProperty_failsInUse {path : List String} {column : String}
    (h : s.columnOf? path = some column) : FailsInUse s.Sound (s.resolveProperty path) := by
  intro plan hplan
  obtain ⟨place, plan', hresolve⟩ := resolveProperty_of_columnOf hplan h
  have hgrows := (s.resolveProperty_moves path).ok hresolve
  rw [hresolve]
  exact hplan.grows hgrows

/-! ## Compilation -/

/-- As many fragments are compiled as there are arguments. -/
theorem length_visitAll {depth : Nat} {es : List Expr} {fragments : List Fragment}
    {t t' : Session} (h : visit.visitAll s depth es t = .ok fragments t') :
    fragments.length = es.length := by
  induction es generalizing fragments t with
  | nil =>
    obtain ⟨rfl, -⟩ := pure_eq_ok.mp h
    rfl
  | cons e es ih =>
    unfold visit.visitAll at h
    obtain ⟨first, t₁, -, h⟩ := bind_eq_ok.mp h
    obtain ⟨rest, t₂, hrest, h⟩ := bind_eq_ok.mp h
    obtain ⟨rfl, rfl⟩ := pure_eq_ok.mp h
    exact congrArg (· + 1) (ih hrest)

/-- Over sound joins, a named expression is compiled or fails in use. -/
theorem visit_failsInUse (depth : Nat) {e : Expr} (h : e.IsNamed s) :
    FailsInUse (fun t => s.Sound t.joins) (s.visit depth e) := by
  -- One that stands too deep is refused, which is of use.
  have hrefuse : ∀ {depth : Nat} {e : Expr},
      (¬s.config.maxDepth ≤ depth → FailsInUse (fun t => s.Sound t.joins) (s.visit depth e)) →
        FailsInUse (fun t => s.Sound t.joins) (s.visit depth e) := by
    intro depth e h
    by_cases hdepth : s.config.maxDepth ≤ depth
    · rw [visit_of_le hdepth]
      exact FailsOnly.throw rfl
    · exact h hdepth
  induction e using @Expr.rec _
    (fun es => ∀ depth, Expr.AllNamed s es →
      FailsInUse (fun t => s.Sound t.joins) (visit.visitAll s depth es))
    generalizing depth with
  | constant value ty =>
    refine hrefuse fun hdepth => ?_
    unfold visit
    rw [if_neg hdepth]
    exact FailsOnly.pure _
  | property path ty =>
    cases h with | property h ty =>
    refine hrefuse fun hdepth => ?_
    unfold visit
    rw [if_neg hdepth]
    exact (resolveProperty_failsInUse h).onJoins.bind fun _ => FailsOnly.pure _
  | call f args ih =>
    cases h with | call harity h =>
    refine hrefuse fun hdepth => ?_
    unfold visit
    rw [if_neg hdepth]
    refine (ih _ h).bind_of_ok fun fragments t t₁ hargs => ?_
    rw [← length_visitAll hargs] at harity
    exact (f.compile_failsOnly _ harity).inUse.onBinding
  | unary op operand ih =>
    cases h with | unary op h =>
    refine hrefuse fun hdepth => ?_
    unfold visit
    rw [if_neg hdepth]
    cases op with
    | negate =>
      exact (ih _ h).bind fun _ =>
        (Fragment.toScalar_failsOnly _ _).inUse.onBinding.bind fun _ => FailsOnly.pure _
    | not =>
      exact (ih _ h).bind fun _ =>
        (Fragment.toPredicate_failsOnly _ _).inUse.onBinding.bind fun _ => FailsOnly.pure _
  | arithmetic op left right ihl ihr =>
    cases h with | arithmetic op hleft hright =>
    refine hrefuse fun hdepth => ?_
    unfold visit
    rw [if_neg hdepth]
    exact (ihl _ hleft).bind fun _ => (ihr _ hright).bind fun _ =>
      (Fragment.toScalar_failsOnly _ _).inUse.onBinding.bind fun _ =>
        (Fragment.toScalar_failsOnly _ _).inUse.onBinding.bind fun _ => FailsOnly.pure _
  | logical op left right ihl ihr =>
    cases h with | logical op hleft hright =>
    refine hrefuse fun hdepth => ?_
    unfold visit
    rw [if_neg hdepth]
    exact (ihl _ hleft).bind fun _ =>
      (Fragment.toPredicate_failsOnly _ _).inUse.onBinding.bind fun _ =>
        (ihr _ hright).bind fun _ =>
          (Fragment.toPredicate_failsOnly _ _).inUse.onBinding.bind fun _ => FailsOnly.pure _
  | relational op left right ihl ihr =>
    cases h with | relational op hleft hright =>
    refine hrefuse fun hdepth => ?_
    unfold visit
    rw [if_neg hdepth]
    exact (ihl _ hleft).bind fun _ => (ihr _ hright).bind fun _ =>
      (compare_failsOnly _ op _ _).inUse.onBinding.bind fun _ => FailsOnly.pure _
  | nil => exact FailsOnly.pure _
  | cons e es ihe ihes =>
    rename_i h
    cases h with | cons h hes =>
    unfold visit.visitAll
    exact (ihe _ h).bind fun _ => (ihes _ hes).bind fun _ => FailsOnly.pure _

/-- Over sound joins, a named condition is compiled or fails in use. -/
theorem condition_failsInUse {e : Expr} (h : e.IsNamed s) :
    FailsInUse (fun t => s.Sound t.joins) (s.condition e) := by
  unfold condition
  exact (visit_failsInUse 0 h).bind fun _ => (Fragment.toPredicate_failsOnly _ _).inUse.onBinding

/-- Over sound joins, a named sort key is compiled or fails in use. -/
theorem sortKey_failsInUse {key : OrderKey} (h : key.expr.IsNamed s) :
    FailsInUse (fun t => s.Sound t.joins) (s.sortKey key) := by
  unfold sortKey value
  exact ((visit_failsInUse 0 h).bind fun _ =>
    (Fragment.toScalar_failsOnly _ _).inUse.onBinding).bind fun _ => FailsOnly.pure _

/-! ## Texts -/

/-- A filter text that is typed is of a known entity type, and what it is parsed to is typed. -/
theorem ofFilter_ok {m : Metadata} {root source : String} {e : Expr}
    (h : Expr.ofFilter m root source = .ok e) :
    m.hasEntity root = true ∧ ∃ parsed, Typing.expr m root parsed = .ok e := by
  obtain ⟨hknown, parsed, -, hexpr⟩ := Expr.ofFilter_eq_ok_iff.mp h
  exact ⟨hknown, parsed, hexpr⟩

/-- A filter text that is typed is of a known entity type, and is named. -/
theorem ofFilter_isNamed {source : String} {e : Expr}
    (h : Expr.ofFilter s.metadata s.root source = .ok e) :
    s.metadata.hasEntity s.root = true ∧ e.IsNamed s := by
  obtain ⟨hknown, parsed, hexpr⟩ := ofFilter_ok h
  exact ⟨hknown, Typing.expr_isNamed hexpr⟩

/-- Every key of a sort order text that is typed is named. -/
theorem ofOrderBy_isNamed {source : String} {keys : List OrderKey}
    (h : OrderKey.ofOrderBy s.metadata s.root source = .ok keys) :
    ∀ key ∈ keys, key.expr.IsNamed s := by
  unfold OrderKey.ofOrderBy at h
  split at h
  next => cases h
  next items _ =>
    cases htyped : Typing.orderKeys s.metadata s.root items with
    | error err =>
      rw [htyped] at h
      cases h
    | ok typed =>
      rw [htyped] at h
      cases h
      have hitems : items.mapM (Typing.orderKey s.metadata s.root) = .ok keys := by
        unfold Typing.orderKeys at htyped
        cases hhead : items.head? with
        | none =>
          rw [hhead] at htyped
          exact htyped
        | some first =>
          rw [hhead] at htyped
          obtain ⟨_, -, hitems⟩ := except_bind_eq_ok.mp htyped
          exact hitems
      intro key hmem
      obtain ⟨item, -, hitem⟩ := Typing.mapM_orderKey_ok hitems key hmem
      obtain ⟨typed, hexpr, hkey⟩ := except_bind_eq_ok.mp hitem
      cases hkey
      exact Typing.expr_isNamed hexpr

/-- Typing finds every name that planning asks for. A filter that is typed is compiled, or fails
with an error of use, and so is every key of a sort order that is typed, whatever was resolved
before it. -/
theorem typed_names_found (s : Scope) :
    (∀ source e, Expr.ofFilter s.metadata s.root source = .ok e →
      ∀ err, s.compileFilter e = .error err → err.isOfUse = true) ∧
    ∀ source keys, OrderKey.ofOrderBy s.metadata s.root source = .ok keys →
      ∀ key ∈ keys, ∀ t t' : Session, ReflTransGen s.Adds .empty t.joins →
        ∀ err, s.sortKey key t = .error err t' → err.isOfUse = true := by
  have hempty := Sound.empty s
  refine ⟨?_, ?_⟩
  · intro source e htyped err h
    obtain ⟨hknown, hnamed⟩ := ofFilter_isNamed htyped
    unfold compileFilter at h
    rw [if_pos hknown] at h
    split at h
    next => cases h
    next hrun =>
      cases h
      exact (condition_failsInUse hnamed).error hempty hrun
  · intro source keys htyped key hmem t t' hgrows err h
    exact (sortKey_failsInUse (ofOrderBy_isNamed htyped key hmem)).error (hempty.grows hgrows) h

end Scope

/-- An order on null is a mistake that typing leaves to planning, and so is a sort key that negates
a text; both are of use. -/
theorem Shop.mistakes_of_use :
    (∃ e err, Expr.ofFilter customers.metadata customers.root
        "orders/total gt 5 and name gt null" = .ok e ∧
      customers.compileFilter e = .error err ∧ err.isOfUse = true) ∧
    ∃ keys, OrderKey.ofOrderBy customers.metadata customers.root "orders/total desc, not name" =
        .ok keys ∧
      ∃ key ∈ keys, ∃ err t, customers.sortKey key .start = .error err t ∧
        err.isOfUse = true := by
  obtain ⟨hfilter, hkeys⟩ := customers.typed_names_found
  refine ⟨?_, ?_⟩
  · have hfails : ((Expr.ofFilter customers.metadata customers.root
        "orders/total gt 5 and name gt null").toOption.any fun e =>
          (customers.compileFilter e).toOption.isNone) = true := by decide +kernel
    cases htyped : Expr.ofFilter customers.metadata customers.root
        "orders/total gt 5 and name gt null" with
    | error err =>
      rw [htyped] at hfails
      cases hfails
    | ok e =>
      rw [htyped] at hfails
      cases hrun : customers.compileFilter e with
      | ok f =>
        have hnone : (customers.compileFilter e).toOption.isNone = true := hfails
        rw [hrun] at hnone
        cases hnone
      | error err => exact ⟨e, err, rfl, hrun, hfilter _ e htyped err hrun⟩
  · have hfails : ((OrderKey.ofOrderBy customers.metadata customers.root
        "orders/total desc, not name").toOption.any fun keys =>
          keys.any fun key => match customers.sortKey key .start with
            | .ok .. => false
            | .error .. => true) = true := by decide +kernel
    cases htyped : OrderKey.ofOrderBy customers.metadata customers.root
        "orders/total desc, not name" with
    | error err =>
      rw [htyped] at hfails
      cases hfails
    | ok keys =>
      rw [htyped] at hfails
      obtain ⟨key, hmem, hkey⟩ := List.any_eq_true.mp hfails
      refine ⟨keys, rfl, key, hmem, ?_⟩
      cases hrun : customers.sortKey key .start with
      | ok scalar t =>
        rw [hrun] at hkey
        cases hkey
      | error err t => exact ⟨err, t, rfl, hkeys _ keys htyped key hmem .start t .refl err hrun⟩

end EntityQuery
