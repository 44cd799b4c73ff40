import EntityQuery.Proofs.Preservation
import EntityQuery.Proofs.Scalars

/-!
# Compiling one thing after the other

A `Task` is something that is compiled in a session: a condition, a value or a sort key.
`Scope.sessionAfter` is the session that tasks leave behind, whether they succeed or fail half way.
Every task is a walk that registers joins and binds parameters (`Task.run_gathers`), and so is any
sequence of them (`sessionAfter_grows`). Along a walk joins and entries are only appended
(`Session.appends_of_grows`): a bound name never loses its value, because a name that is given is
free.

What a task was compiled to has a value in the session that it ends in, under every interpretation.
This is a property of scalars that compilation keeps (`Scope.keeps_evaluates`), also in a session
whose joins are not known to be sound: the alias of a column is among the joins, and a name that is
referred to is bound. A value is kept by every environment that translates more, hence by every
session that later tasks leave behind.
-/

open Relation (ReflTransGen)

namespace EntityQuery

/-! ## Tasks -/

/-- Something that is compiled in a session. -/
inductive Task
  | condition (e : Expr)
  | value (e : Expr)
  | sortKey (key : OrderKey)

namespace Task

/-- The expression that a task is about. -/
def expr : Task → Expr
  | condition e | value e => e
  | sortKey key => key.expr

/-- What a task is compiled to. -/
inductive Outcome
  | predicate (p : Predicate)
  | scalar (x : Scalar)
  | sortKey (key : SortKey)

/-- Compiles a task. -/
def run (s : Scope) : Task → Session.Run Outcome
  | condition e => do
    let p ← s.condition e
    return .predicate p
  | value e => do
    let x ← s.value e
    return .scalar x
  | sortKey key => do
    let key ← s.sortKey key
    return .sortKey key

/-- Compiling a task only gathers. -/
theorem run_gathers (s : Scope) (task : Task) : Session.Gathers s (task.run s) := by
  cases task with
  | condition e => exact (s.condition_gathers e).bind fun _ => .pure _
  | value e => exact (s.value_gathers e).bind fun _ => .pure _
  | sortKey key => exact (s.sortKey_gathers key).bind fun _ => .pure _

/-- What a task was compiled to, by its kind. A sort key is compiled to the value of its
expression, under its direction. -/
theorem run_ok {s : Scope} {task : Task} {outcome : Outcome} {t t' : Session}
    (h : task.run s t = .ok outcome t') :
    (∃ e p, outcome = .predicate p ∧ s.condition e t = .ok p t') ∨
      ∃ e x, (outcome = .scalar x ∨ ∃ d, outcome = .sortKey ⟨x, d⟩) ∧ s.value e t = .ok x t' := by
  cases task with
  | condition e =>
    obtain ⟨p, t₁, hp, hreturn⟩ := bind_eq_ok.mp h
    obtain ⟨rfl, rfl⟩ := pure_eq_ok.mp hreturn
    exact .inl ⟨e, p, rfl, hp⟩
  | value e =>
    obtain ⟨x, t₁, hx, hreturn⟩ := bind_eq_ok.mp h
    obtain ⟨rfl, rfl⟩ := pure_eq_ok.mp hreturn
    exact .inr ⟨e, x, .inl rfl, hx⟩
  | sortKey key =>
    obtain ⟨_, t₁, hkey, hreturn⟩ := bind_eq_ok.mp h
    obtain ⟨rfl, rfl⟩ := pure_eq_ok.mp hreturn
    obtain ⟨x, t₂, hx, hreturn⟩ := bind_eq_ok.mp hkey
    obtain ⟨rfl, rfl⟩ := pure_eq_ok.mp hreturn
    exact .inr ⟨key.expr, x, .inr ⟨key.direction, rfl⟩, hx⟩

end Task

namespace Scope

variable {s : Scope} {t t' : Session}

/-- The session that tasks leave behind, one after the other, whether they succeed or fail. -/
def sessionAfter (s : Scope) (t : Session) (tasks : List Task) : Session :=
  tasks.foldl (fun t task => finalState (task.run s t)) t

/-- Tasks walk from the session before them to the one that they leave behind. -/
theorem sessionAfter_grows (s : Scope) (t : Session) (tasks : List Task) :
    ReflTransGen (Session.Adds s) t (s.sessionAfter t tasks) := by
  induction tasks generalizing t with
  | nil => exact .refl
  | cons task tasks ih =>
    have hfirst : ReflTransGen (Session.Adds s) t (finalState (task.run s t)) :=
      (task.run_gathers s).moves t
    exact hfirst.trans (ih _)

/-- The session after a task that follows others. -/
theorem sessionAfter_append (s : Scope) (t : Session) (earlier later : List Task) :
    s.sessionAfter t (earlier ++ later) = s.sessionAfter (s.sessionAfter t earlier) later :=
  List.foldl_append

end Scope

/-! ## Appending -/

/-- Joins and parameters were appended to those of a session, and what was there is as it was. -/
structure Session.Appends (t t' : Session) : Prop where
  /-- The joins are the first ones. -/
  joins : t.joins.steps <+: t'.joins.steps
  /-- The parameters are the first ones, with their names and values. -/
  parameters : t.parameters.entries <+: t'.parameters.entries

/-- A walk appends. -/
theorem Session.appends_of_grows {s : Scope} {t t' : Session}
    (h : ReflTransGen (Session.Adds s) t t') : t.Appends t' where
  joins := Scope.steps_grow (Session.joins_grow h)
  parameters := Binding.entries_grow (Session.binding_grow h)

/-! ## Evaluating -/

section

variable {V : Type} {I : Interpretation V}

/-- The alias of a place that joins lead to qualifies the columns of some path. -/
theorem Scope.exists_navigation?_place {s : Scope} {joins : JoinPlan} {path : List String}
    {place : Place} (h : s.place? joins path = some place) :
    ∃ path', joins.navigation? s.config.rootAlias? place.alias? = some path' := by
  unfold JoinPlan.navigation?
  split
  next => exact ⟨[], rfl⟩
  next hroot =>
    unfold place? at h
    split at h
    next =>
      cases h
      exact absurd rfl hroot
    next =>
      -- The join of the path is one that has the alias, if not the first one.
      obtain ⟨step, hget, rfl⟩ := Option.map_eq_some_iff.mp h
      obtain ⟨hmem, -⟩ := JoinPlan.get?_eq_some hget
      have hfound : (joins.steps.find? fun other =>
          some other.aliasName == some step.aliasName).isSome := by
        rw [List.find?_isSome]
        exact ⟨step, hmem, beq_self_eq_true _⟩
      obtain ⟨found, hfind⟩ := Option.isSome_iff_exists.mp hfound
      exact ⟨found.path, Option.map_eq_some_iff.mpr ⟨found, hfind, rfl⟩⟩

/-- Scalars that have values have them together. -/
theorem Scalar.exists_evalAll {env : Environment} {xs : List Scalar}
    (h : ∀ x ∈ xs, ∃ v, x.eval I env = some v) : ∃ vs, eval.evalAll I env xs = some vs := by
  induction xs with
  | nil => exact ⟨[], rfl⟩
  | cons x xs ih =>
    obtain ⟨hx, hxs⟩ := List.forall_mem_cons.mp h
    obtain ⟨v, hv⟩ := hx
    obtain ⟨vs, hvs⟩ := ih hxs
    exact ⟨v :: vs, by simp [eval.evalAll, hv, hvs]⟩

/-- A predicate has a truth value when the scalars that it is made of have values. -/
theorem Predicate.exists_eval {env : Environment} {p : Predicate}
    (h : ∀ x ∈ p.scalars, ∃ v, x.eval I env = some v) : ∃ b, p.eval I env = some b := by
  induction p with
  | const b => exact ⟨b, rfl⟩
  | and left right ihl ihr | or left right ihl ihr =>
    obtain ⟨hleft, hright⟩ := List.forall_mem_append.mp h
    obtain ⟨a, ha⟩ := ihl hleft
    obtain ⟨b, hb⟩ := ihr hright
    exact ⟨_, by simp only [Predicate.eval, ha, hb]; rfl⟩
  | not operand ih =>
    obtain ⟨b, hb⟩ := ih h
    exact ⟨!b, Option.map_eq_some_iff.mpr ⟨b, hb, rfl⟩⟩
  | compare _ left right | like left right =>
    obtain ⟨⟨x, hx⟩, y, hy⟩ := forall_mem_pair.mp h
    exact ⟨_, by simp only [Predicate.eval, hx, hy]; rfl⟩
  | isNull operand | isNotNull operand =>
    obtain ⟨x, hx⟩ := List.forall_mem_singleton.mp h
    exact ⟨_, Option.map_eq_some_iff.mpr ⟨x, hx, rfl⟩⟩

/-- Compilation keeps that a scalar has a value, whatever columns, literals and operations mean. -/
theorem Scope.keeps_evaluates (s : Scope) (I : Interpretation V) :
    s.Keeps fun t x => ∃ v, x.eval I (t.environment s) = some v where
  grows h hx := by
    obtain ⟨v, hv⟩ := hx
    exact ⟨v, Scalar.eval_extends (Session.environment_extends h) hv⟩
  column h := by
    obtain ⟨last, place, name, -, hresolve, -, rfl⟩ := resolveProperty_ok h
    obtain ⟨path, hpath⟩ := exists_navigation?_place (resolve_ok hresolve)
    exact ⟨I.column path name, Option.map_eq_some_iff.mpr ⟨path, hpath, rfl⟩⟩
  parameter h := ⟨_, Option.map_eq_some_iff.mpr ⟨_, h, rfl⟩⟩
  constant _ n := ⟨I.constant n, rfl⟩
  function _ _ hargs := by
    obtain ⟨vs, hvs⟩ := Scalar.exists_evalAll hargs
    exact ⟨_, Option.map_eq_some_iff.mpr ⟨vs, hvs, rfl⟩⟩
  arithmetic op _ _ hx hy := by
    obtain ⟨x, hx⟩ := hx
    obtain ⟨y, hy⟩ := hy
    exact ⟨I.arithmetic op x y, by simp [Scalar.eval, hx, hy]⟩
  negate hx := by
    obtain ⟨x, hx⟩ := hx
    exact ⟨I.negate x, Option.map_eq_some_iff.mpr ⟨x, hx, rfl⟩⟩

namespace Task

/-- What the outcome of a task means: a truth value, or the value that is computed or sorted by. -/
def Outcome.eval (I : Interpretation V) (env : Environment) : Outcome → Option (Bool ⊕ V)
  | predicate p => (p.eval I env).map .inl
  | scalar x => (x.eval I env).map .inr
  | sortKey key => (key.scalar.eval I env).map .inr

/-- An outcome keeps its meaning in an environment that translates more. -/
theorem Outcome.eval_extends {env env' : Environment} (h : env.Extends env') {outcome : Outcome}
    {x : Bool ⊕ V} (hx : outcome.eval I env = some x) : outcome.eval I env' = some x := by
  cases outcome with
  | predicate p =>
    obtain ⟨b, hb, rfl⟩ := Option.map_eq_some_iff.mp hx
    exact Option.map_eq_some_iff.mpr ⟨b, Predicate.eval_extends h hb, rfl⟩
  | scalar | sortKey =>
    obtain ⟨v, hv, rfl⟩ := Option.map_eq_some_iff.mp hx
    exact Option.map_eq_some_iff.mpr ⟨v, Scalar.eval_extends h hv, rfl⟩

/-- The outcome of a task has a meaning in the session that the task ends in. -/
theorem Outcome.exists_eval {s : Scope} {task : Task} {outcome : Outcome} {t t' : Session}
    (h : task.run s t = .ok outcome t') (I : Interpretation V) :
    ∃ x, outcome.eval I (t'.environment s) = some x := by
  have hkeeps := s.keeps_evaluates I
  rcases run_ok h with ⟨e, p, rfl, hp⟩ | ⟨e, x, houtcome, hx⟩
  · obtain ⟨b, hb⟩ := Predicate.exists_eval (hkeeps.condition hp)
    exact ⟨.inl b, Option.map_eq_some_iff.mpr ⟨b, hb, rfl⟩⟩
  · obtain ⟨v, hv⟩ := hkeeps.value hx
    rcases houtcome with rfl | ⟨d, rfl⟩
    all_goals exact ⟨.inr v, Option.map_eq_some_iff.mpr ⟨v, hv, rfl⟩⟩

end Task

end

/-! ## Sequences of tasks -/

/-- Compiling only ever appends. Whatever tasks came before, and whether they and the next one
succeed or fail, the joins and parameters before a task are the first ones after it. What a task is
compiled to has a meaning in the session that it ends in, and the same one in every session that
later tasks leave behind. A literal that cannot be bound is a text that is none of its type, and the
attempt changes neither the parameters nor the name that comes next. -/
theorem Scope.tasks_append (s : Scope) (t : Session) (earlier : List Task) (task : Task)
    (later : List Task) :
    (s.sessionAfter t earlier).Appends (s.sessionAfter t (earlier ++ [task])) ∧
    (∀ outcome t', task.run s (s.sessionAfter t earlier) = .ok outcome t' →
      ∀ (V : Type) (I : Interpretation V), ∃ x, outcome.eval I (t'.environment s) = some x ∧
        outcome.eval I ((s.sessionAfter t (earlier ++ task :: later)).environment s) = some x) ∧
    ∀ (b b' : Binding) (value : Value) (ty : EdmType) (e : PlanError),
      Binding.bind s.config value ty b = .error e b' →
        (∃ text, value = .string text ∧ e = .invalidLiteral ty text) ∧
          b'.parameters = b.parameters ∧ b'.nextName s.config = b.nextName s.config := by
  refine ⟨?_, ?_, ?_⟩
  · rw [sessionAfter_append]
    exact Session.appends_of_grows (s.sessionAfter_grows _ [task])
  · intro outcome t' hrun V I
    obtain ⟨x, hx⟩ := Task.Outcome.exists_eval hrun I
    -- The later tasks go on from the session that this one ends in.
    have hafter : s.sessionAfter t (earlier ++ task :: later) = s.sessionAfter t' later := by
      rw [sessionAfter_append, sessionAfter, List.foldl_cons, hrun]
      rfl
    rw [hafter]
    have hextends := Session.environment_extends (s.sessionAfter_grows t' later)
    exact ⟨x, hx, Task.Outcome.eval_extends hextends hx⟩
  · intro b b' value ty e hbind
    obtain ⟨hnormal, rfl⟩ := Binding.bind_error hbind
    exact ⟨Value.normalize_error hnormal, rfl, rfl⟩

/-! ## Failures in a session of the shop -/

namespace Shop

/-- A condition that fails when its left side has left a join and a parameter behind. -/
def halfway : Expr := .logical .and largeOrder (.property ["birthday"] .dateTime)

/-- Between two failures that leave joins and parameters behind, the condition for a large order is
compiled, and the later failure does not change what it means. A text that is no identifier is not
bound. -/
theorem largeOrder_between_failures :
    ∃ e t₁ outcome t' x b e' b',
      Task.run customers (.condition halfway) .start = .error e t₁ ∧
      t₁.parameters.entries = [("p0", .int32 5)] ∧
      Task.run customers (.condition largeOrder) t₁ = .ok outcome t' ∧
      outcome.eval distances (t'.environment customers) = some x ∧
      outcome.eval distances ((customers.sessionAfter .start
        [.condition halfway, .condition largeOrder, .condition halfway]).environment customers) =
          some x ∧
      Binding.bind customers.config (.string "none") .guid b = .error e' b' ∧
      b'.nextName customers.config = b.nextName customers.config := by
  obtain ⟨e, t₁, hfails, hleft⟩ : ∃ e t₁,
      Task.run customers (.condition halfway) .start = .error e t₁ ∧
        t₁.parameters.entries = [("p0", .int32 5)] := ⟨_, _, rfl, rfl⟩
  obtain ⟨outcome, t', hok⟩ := exists_of_succeeds
    (show succeeds (Task.run customers (.condition largeOrder)
      (customers.sessionAfter .start [.condition halfway])) = true by decide +kernel)
  obtain ⟨-, hmeaning, hbind⟩ := customers.tasks_append .start [.condition halfway]
    (.condition largeOrder) [.condition halfway]
  obtain ⟨x, hx, hlater⟩ := hmeaning outcome t' hok Nat distances
  have hsession : customers.sessionAfter .start [.condition halfway] = t₁ := by
    rw [Scope.sessionAfter, List.foldl_cons, hfails]
    rfl
  rw [hsession] at hok
  have hfailed : Binding.bind customers.config (.string "none") .guid .start =
      .error (.invalidLiteral .guid "none") .start := rfl
  obtain ⟨-, -, hname⟩ := hbind _ _ _ _ _ hfailed
  exact ⟨e, t₁, outcome, t', x, .start, _, .start, hfails, hleft, hok, hx, hlater, hfailed, hname⟩

end Shop

end EntityQuery
