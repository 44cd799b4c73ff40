import EntityQuery.Proofs.Failures
import EntityQuery.Proofs.Tasks

/-!
# The bound on the depth

`ChecksDepth limit fits x` says that `x` succeeds only if what it compiles fits into a bound, and
finds it too deep only if it does not. Sequences check what their parts check together
(`ChecksDepth.bind`), and nothing but a visit finds anything too deep. So visiting checks the depth
of an expression, and nothing more or less (`Scope.visit_checksDepth`).

A visit is told at which depth it is. `Scope.visitCounting` keeps a counter in the state instead,
which goes up when a visit begins and down when it is over, also when it has failed. The two do the
same (`Scope.visitCounting_eq`): the counter is always the depth, and after a visit it is what it
was before. A task that follows others, whatever became of them, is thus compiled with the whole
bound (`Scope.depth_bound_exact`).
-/

namespace EntityQuery

/-! ## What never finds anything too deep -/

/-- A computation fails with no error about the depth. -/
abbrev NeverTooDeep {σ α : Type} (x : EStateM PlanError σ α) : Prop :=
  FailsOnly (fun e => ∀ n, e ≠ .tooDeep n) (fun _ => True) x

/-- What is about operands is not about the depth. -/
theorem FailsOnly.neverTooDeep {σ α : Type} {x : EStateM PlanError σ α} (h : FailsOnOperands x) :
    NeverTooDeep x := by
  refine h.mono fun e he n hdeep => ?_
  rw [hdeep] at he
  cases he

/-- Lowering over the parameters of a session is about operands, and not about the depth. -/
theorem FailsOnly.neverTooDeep_onBinding {α : Type} {x : Binding.Run α} (h : FailsOnOperands x) :
    NeverTooDeep (Session.onBinding x) :=
  h.neverTooDeep.onBinding (J := fun _ => True)

/-- Compiling a call whose arguments are compiled looks at no depth. -/
theorem Builtin.compile_neverTooDeep (c : Config) (f : Builtin) (args : List Fragment) :
    NeverTooDeep (f.compile c args) := by
  by_cases harity : f.arity.accepts args.length = true
  · exact (f.compile_failsOnly c harity).neverTooDeep
  · unfold compile
    rw [if_neg harity]
    exact FailsOnly.throw fun _ => nofun

namespace Scope

/-- Following a navigation looks at no depth. -/
theorem follow_neverTooDeep (s : Scope) (done : List String) (place : Place) (segment : String) :
    NeverTooDeep (s.follow done place segment) := by
  intro plan _
  rcases s.follow_cases done place segment plan with ⟨_, _, h⟩ | ⟨_, _, h⟩ | ⟨_, _, _, h⟩
  all_goals rw [h]
  · trivial
  · exact fun _ => nofun
  · trivial

/-- Following navigations looks at no depth. -/
theorem followAll_neverTooDeep (s : Scope) (done : List String) (place : Place)
    (segments : List String) : NeverTooDeep (s.followAll done place segments) := by
  induction segments generalizing done place with
  | nil => exact FailsOnly.pure _
  | cons segment segments ih =>
    unfold followAll
    exact (s.follow_neverTooDeep done place segment).bind fun _ => ih _ _

/-- Resolving a property looks at no depth. -/
theorem resolveProperty_neverTooDeep (s : Scope) (path : List String) :
    NeverTooDeep (s.resolveProperty path) := by
  unfold resolveProperty
  split
  · exact FailsOnly.throw fun _ => nofun
  · refine (s.followAll_neverTooDeep [] s.rootPlace _).bind fun place => ?_
    split
    · exact FailsOnly.pure _
    · exact FailsOnly.throw fun _ => nofun

end Scope

/-! ## Checking a bound -/

section

variable {σ α β : Type} {limit : Nat} {p q : Prop} {x : EStateM PlanError σ α}

/-- A computation checks a bound on the depth: it succeeds only if what it is about fits, and finds
it too deep for that bound only if it does not. -/
def ChecksDepth (limit : Nat) (fits : Prop) (x : EStateM PlanError σ α) : Prop :=
  ∀ s, match x s with
    | .ok _ _ => fits
    | .error e _ => ∀ n, e = .tooDeep n → n = limit ∧ ¬fits

namespace ChecksDepth

/-- What succeeds fits. -/
theorem ok (h : ChecksDepth limit p x) {s t : σ} {a : α} (hx : x s = .ok a t) : p := by
  have hrun := h s
  rw [hx] at hrun
  exact hrun

/-- What is too deep does not fit into the bound that the error names. -/
theorem tooDeep (h : ChecksDepth limit p x) {s t : σ} {n : Nat}
    (hx : x s = .error (.tooDeep n) t) : n = limit ∧ ¬p := by
  have hrun := h s
  rw [hx] at hrun
  exact hrun n rfl

/-- Only whether it fits matters. -/
theorem congr (h : ChecksDepth limit p x) (hpq : p ↔ q) : ChecksDepth limit q x :=
  propext hpq ▸ h

/-- What never finds anything too deep fits into every bound. -/
theorem of_never (h : NeverTooDeep x) : ChecksDepth limit True x := by
  intro s
  have hrun := h s trivial
  cases hx : x s with
  | ok a t => trivial
  | error e t =>
    rw [hx] at hrun
    intro n he
    exact absurd he (hrun n)

/-- A sequence checks what its parts check. -/
theorem bind {f : α → EStateM PlanError σ β} (hx : ChecksDepth limit p x)
    (hf : ∀ a, ChecksDepth limit q (f a)) : ChecksDepth limit (p ∧ q) (x >>= f) := by
  intro s
  cases hrun : (x >>= f) s with
  | ok b t =>
    obtain ⟨a, t₁, hfirst, hsecond⟩ := bind_eq_ok.mp hrun
    exact ⟨hx.ok hfirst, (hf a).ok hsecond⟩
  | error e t =>
    rintro n rfl
    rcases bind_eq_error.mp hrun with hfirst | ⟨a, t₁, -, hsecond⟩
    · obtain ⟨hn, hp⟩ := hx.tooDeep hfirst
      exact ⟨hn, fun hboth => hp hboth.1⟩
    · obtain ⟨hn, hq⟩ := (hf a).tooDeep hsecond
      exact ⟨hn, fun hboth => hq hboth.2⟩

/-- A sequence checks what its first part checks, if the second never finds anything too deep. -/
theorem bind_never {f : α → EStateM PlanError σ β} (hx : ChecksDepth limit p x)
    (hf : ∀ a, NeverTooDeep (f a)) : ChecksDepth limit p (x >>= f) :=
  (hx.bind fun a => of_never (hf a)).congr (and_iff_left trivial)

/-- A sequence checks what its second part checks, if the first never finds anything too deep. -/
theorem never_bind {f : α → EStateM PlanError σ β} (hx : NeverTooDeep x)
    (hf : ∀ a, ChecksDepth limit q (f a)) : ChecksDepth limit q (x >>= f) :=
  ((of_never hx).bind hf).congr (and_iff_right trivial)

end ChecksDepth

end

/-- Every expression has some depth. -/
theorem Expr.depth_pos (e : Expr) : 0 < e.depth := by
  cases e with
  | property | constant => exact Nat.one_pos
  | _ => exact Nat.add_pos_left Nat.one_pos _

namespace Scope

variable {s : Scope}

/-- A visit checks the depth of an expression if it does so below the bound: at the bound it is
refused, and there is no room for an expression. -/
theorem visit_checksDepth_of_lt {depth : Nat} {e : Expr}
    (h : ¬s.config.maxDepth ≤ depth →
      ChecksDepth s.config.maxDepth (depth + e.depth ≤ s.config.maxDepth) (s.visit depth e)) :
    ChecksDepth s.config.maxDepth (depth + e.depth ≤ s.config.maxDepth) (s.visit depth e) := by
  by_cases hdepth : s.config.maxDepth ≤ depth
  · have hpos := e.depth_pos
    rw [visit_of_le hdepth]
    rintro t n ⟨⟩
    exact ⟨rfl, by omega⟩
  · exact h hdepth

/-- Lowering an operand looks at no depth. -/
theorem toScalar_neverTooDeep (s : Scope) (f : Fragment) :
    NeverTooDeep (Session.onBinding (f.toScalar s.config)) :=
  (Fragment.toScalar_failsOnly _ f).neverTooDeep_onBinding

/-- Lowering a condition looks at no depth. -/
theorem toPredicate_neverTooDeep (s : Scope) (f : Fragment) :
    NeverTooDeep (Session.onBinding (f.toPredicate s.config)) :=
  (Fragment.toPredicate_failsOnly _ f).neverTooDeep_onBinding

/-- A node fits with both of its operands one level deeper when it fits with the deeper one. -/
theorem fit_both {depth m n limit : Nat} :
    depth + 1 + m ≤ limit ∧ depth + 1 + n ≤ limit ↔ depth + (1 + max m n) ≤ limit := by omega

/-- Visiting an expression checks that its depth and the one that it is visited at are together
within the bound. -/
theorem visit_checksDepth (depth : Nat) (e : Expr) :
    ChecksDepth s.config.maxDepth (depth + e.depth ≤ s.config.maxDepth) (s.visit depth e) := by
  -- The arguments of a call are visited where there is room for one more level, also for none.
  induction e using @Expr.rec _
    (fun es => ∀ depth ≤ s.config.maxDepth,
      ChecksDepth s.config.maxDepth (depth + Expr.depth.depths es ≤ s.config.maxDepth)
        (visit.visitAll s depth es))
    generalizing depth with
  | constant value ty =>
    refine visit_checksDepth_of_lt fun hdepth => ?_
    have hleaf : depth + 1 ≤ s.config.maxDepth := by omega
    unfold visit
    rw [if_neg hdepth]
    exact (ChecksDepth.of_never (FailsOnly.pure _)).congr (iff_of_true trivial hleaf)
  | property path ty =>
    refine visit_checksDepth_of_lt fun hdepth => ?_
    have hleaf : depth + 1 ≤ s.config.maxDepth := by omega
    have hresolve := (s.resolveProperty_neverTooDeep path).onJoins (J := fun _ => True)
    unfold visit
    rw [if_neg hdepth]
    exact (ChecksDepth.of_never (hresolve.bind fun _ => FailsOnly.pure _)).congr
      (iff_of_true trivial hleaf)
  | call f args ih =>
    refine visit_checksDepth_of_lt fun hdepth => ?_
    have hargs := ih (depth + 1) (by omega)
    have hcompile : ∀ fragments, NeverTooDeep (Session.onBinding (f.compile s.config fragments)) :=
      fun fragments => (f.compile_neverTooDeep _ fragments).onBinding (J := fun _ => True)
    unfold visit
    rw [if_neg hdepth]
    exact (hargs.bind_never hcompile).congr (by rw [Expr.depth, Nat.add_assoc])
  | unary op operand ih =>
    refine visit_checksDepth_of_lt fun hdepth => ?_
    have hoperand := (ih (depth + 1)).congr (by rw [Nat.add_assoc])
    unfold visit
    rw [if_neg hdepth]
    cases op with
    | negate =>
      exact hoperand.bind_never fun _ =>
        (s.toScalar_neverTooDeep _).bind fun _ => FailsOnly.pure _
    | not =>
      exact hoperand.bind_never fun _ =>
        (s.toPredicate_neverTooDeep _).bind fun _ => FailsOnly.pure _
  | arithmetic op left right ihl ihr =>
    refine visit_checksDepth_of_lt fun hdepth => ?_
    unfold visit
    rw [if_neg hdepth]
    -- Both operands are visited before either of them is lowered.
    exact ((ihl _).bind fun _ => (ihr _).bind_never fun _ =>
      (s.toScalar_neverTooDeep _).bind fun _ =>
        (s.toScalar_neverTooDeep _).bind fun _ => FailsOnly.pure _).congr fit_both
  | logical op left right ihl ihr =>
    refine visit_checksDepth_of_lt fun hdepth => ?_
    unfold visit
    rw [if_neg hdepth]
    -- The left operand is lowered before the right one is visited.
    have hright : ∀ p, ChecksDepth s.config.maxDepth (depth + 1 + right.depth ≤ s.config.maxDepth)
        (do
          let right ← s.visit (depth + 1) right
          let right ← Session.onBinding (right.fragment.toPredicate s.config)
          return Compiled.complete (.predicate (connective op p right))) := fun p =>
      (ihr _).bind_never fun _ => (s.toPredicate_neverTooDeep _).bind fun _ => FailsOnly.pure _
    exact ((ihl _).bind fun _ =>
      ChecksDepth.never_bind (s.toPredicate_neverTooDeep _) hright).congr fit_both
  | relational op left right ihl ihr =>
    refine visit_checksDepth_of_lt fun hdepth => ?_
    unfold visit
    rw [if_neg hdepth]
    exact ((ihl _).bind fun _ => (ihr _).bind_never fun _ =>
      (compare_failsOnly _ op _ _).neverTooDeep_onBinding.bind fun _ => FailsOnly.pure _).congr
        fit_both
  | nil =>
    rename_i depth hle
    exact (ChecksDepth.of_never (FailsOnly.pure _)).congr (iff_of_true trivial hle)
  | cons e es ihe ihes =>
    rename_i depth hle
    have hboth : depth + e.depth ≤ s.config.maxDepth ∧
        depth + Expr.depth.depths es ≤ s.config.maxDepth ↔
          depth + max e.depth (Expr.depth.depths es) ≤ s.config.maxDepth := by omega
    unfold visit.visitAll
    exact ((ihe depth).bind fun _ => (ihes depth hle).bind_never fun _ => FailsOnly.pure _).congr
      hboth

end Scope

/-- A task checks that the depth of its expression is within the bound. -/
theorem Task.run_checksDepth (s : Scope) (task : Task) :
    ChecksDepth s.config.maxDepth (task.expr.depth ≤ s.config.maxDepth) (task.run s) := by
  have hvisit := s.visit_checksDepth 0 task.expr
  rw [Nat.zero_add] at hvisit
  cases task with
  | condition e =>
    exact (hvisit.bind_never fun _ => s.toPredicate_neverTooDeep _).bind_never fun _ =>
      FailsOnly.pure _
  | value e =>
    exact (hvisit.bind_never fun _ => s.toScalar_neverTooDeep _).bind_never fun _ =>
      FailsOnly.pure _
  | sortKey key =>
    exact ((hvisit.bind_never fun _ => s.toScalar_neverTooDeep _).bind_never fun _ =>
      FailsOnly.pure _).bind_never fun _ => FailsOnly.pure _

/-! ## Visits that count -/

/-- A session, and the number of visits that are under way. -/
@[ext]
structure Compiler where
  /-- The joins and parameters. -/
  session : Session
  /-- The number of visits. -/
  depth : Nat

/-- A computation that adds joins and parameters and may count visits. -/
abbrev Compiler.Run := EStateM PlanError Compiler

namespace Compiler

variable {α β : Type}

/-- Goes on from a session, with no visit under way. -/
def resume (t : Session) : Compiler := ⟨t, 0⟩

/-- Runs a computation on the session. -/
def onSession (run : Session.Run α) : Run α := fun c =>
  match run c.session with
  | .ok a session => .ok a { c with session }
  | .error e session => .error e { c with session }

/-- A computation on the session leaves what it leaves behind on its own. -/
theorem session_onSession (run : Session.Run α) (c : Compiler) :
    (finalState (onSession run c)).session = finalState (run c.session) := by
  unfold onSession
  cases run c.session with
  | ok | error => rfl

/-- A computation on the session checks what it checks on its own. -/
theorem checksDepth_onSession {limit : Nat} {p : Prop} {run : Session.Run α}
    (h : ChecksDepth limit p run) : ChecksDepth limit p (onSession run) := by
  intro c
  have hrun := h c.session
  unfold Compiler.onSession
  cases hsession : run c.session with
  | ok a t | error e t =>
    rw [hsession] at hrun
    exact hrun

/-- Runs a visit, unless as many are under way as a bound allows. It is counted until it is over,
whether it has succeeded or failed. -/
def counted (limit : Nat) (run : Run α) : Run α := fun c =>
  if limit ≤ c.depth then .error (.tooDeep limit) c
  else
    match run { c with depth := c.depth + 1 } with
    | .ok a c => .ok a { c with depth := c.depth - 1 }
    | .error e c => .error e { c with depth := c.depth - 1 }

/-- Runs the computation on the session that belongs to the number of visits. -/
def atDepth (run : Nat → Session.Run α) : Run α := fun c => onSession (run c.depth) c

/-- A computation on the session does not depend on the number of visits. -/
theorem onSession_eq (run : Session.Run α) : onSession run = atDepth fun _ => run := rfl

/-- Returning a result does not depend on the number of visits. -/
theorem pure_eq (a : α) : (pure a : Run α) = atDepth fun _ => pure a := rfl

/-- A computation on the session leaves the number of visits as it is, also when it fails. -/
@[simp]
theorem depth_atDepth (run : Nat → Session.Run α) (c : Compiler) :
    (finalState (atDepth run c)).depth = c.depth := by
  unfold atDepth onSession
  cases run c.depth c.session with
  | ok | error => rfl

/-- A sequence of computations on the session is one. -/
theorem atDepth_bind (x : Nat → Session.Run α) (f : α → Nat → Session.Run β) :
    (atDepth x >>= fun a => atDepth (f a)) = atDepth fun d => x d >>= fun a => f a d := by
  funext c
  show EStateM.bind (atDepth x) (fun a => atDepth (f a)) c =
    onSession (EStateM.bind (x c.depth) fun a => f a c.depth) c
  simp only [EStateM.bind, atDepth, onSession]
  cases x c.depth c.session with
  | ok | error => rfl

/-- A visit that is counted runs at the next depth, unless that is beyond the bound. -/
theorem counted_atDepth (limit : Nat) (run : Nat → Session.Run α) :
    counted limit (atDepth run) =
      atDepth fun d => if limit ≤ d then throw (.tooDeep limit) else run (d + 1) := by
  funext c
  simp only [counted, atDepth, onSession]
  by_cases hdepth : limit ≤ c.depth
  · rw [if_pos hdepth, if_pos hdepth]
    rfl
  · rw [if_neg hdepth, if_neg hdepth]
    cases run (c.depth + 1) c.session with
    | ok | error => rfl

end Compiler

namespace Scope

open Session Compiler

/-- Compiles an expression, counting the visits that are under way. -/
def visitCounting (s : Scope) (e : Expr) : Compiler.Run Compiled :=
  counted s.config.maxDepth <|
    match e with
    | .constant value ty => return .complete (.literal value ty)
    | .property path ty => do
      let column ← onSession (onJoins (s.resolveProperty path))
      return .complete (.value column ty)
    | .call f args => do
      let args ← visitAllCounting args
      onSession (onBinding (f.compile s.config args))
    | .unary .negate operand => do
      let operand ← s.visitCounting operand
      let scalar ← onSession (onBinding (operand.fragment.toScalar s.config))
      return .complete (.value (.negate scalar) operand.fragment.ty)
    | .unary .not operand => do
      let operand ← s.visitCounting operand
      let p ← onSession (onBinding (operand.fragment.toPredicate s.config))
      return .complete (.predicate (.not p))
    | .arithmetic op left right => do
      let left ← s.visitCounting left
      let right ← s.visitCounting right
      let ty := if left.fragment.ty = .null then right.fragment.ty else left.fragment.ty
      let left ← onSession (onBinding (left.fragment.toScalar s.config))
      let right ← onSession (onBinding (right.fragment.toScalar s.config))
      return .complete (.value (.arithmetic op left right) ty)
    | .logical op left right => do
      let left ← s.visitCounting left
      let left ← onSession (onBinding (left.fragment.toPredicate s.config))
      let right ← s.visitCounting right
      let right ← onSession (onBinding (right.fragment.toPredicate s.config))
      return .complete (.predicate (connective op left right))
    | .relational op left right => do
      let left ← s.visitCounting left
      let right ← s.visitCounting right
      let p ← onSession (onBinding (compare s.config op left right.fragment))
      return .complete (.predicate p)
where
  /-- Compiles the arguments of a call from left to right, counting visits. -/
  visitAllCounting : List Expr → Compiler.Run (List Fragment)
    | [] => return []
    | e :: es => do
      let compiled ← s.visitCounting e
      let fragments ← visitAllCounting es
      return compiled.fragment :: fragments

/-- The counter is the depth at which an expression is visited, and it is as before when the visit
is over. -/
theorem visitCounting_eq (s : Scope) (e : Expr) :
    s.visitCounting e = atDepth fun d => s.visit d e := by
  induction e using @Expr.rec _
    (fun es => visitCounting.visitAllCounting s es = atDepth fun d => visit.visitAll s d es) with
  -- The parts of a node are computations at a depth, and so are their sequence and the visit of it.
  | constant value ty =>
    unfold visitCounting
    simp only [pure_eq, counted_atDepth]
    rfl
  | property path ty =>
    unfold visitCounting
    simp only [onSession_eq, pure_eq, atDepth_bind, counted_atDepth]
    rfl
  | call f args ih =>
    unfold visitCounting
    simp only [ih, onSession_eq, atDepth_bind, counted_atDepth]
    rfl
  | unary op operand ih =>
    cases op with
    | negate | not =>
      unfold visitCounting
      simp only [ih, onSession_eq, pure_eq, atDepth_bind, counted_atDepth]
      rfl
  | arithmetic op left right ihl ihr | logical op left right ihl ihr
  | relational op left right ihl ihr =>
    unfold visitCounting
    simp only [ihl, ihr, onSession_eq, pure_eq, atDepth_bind, counted_atDepth]
    rfl
  | nil =>
    unfold visitCounting.visitAllCounting
    rfl
  | cons e es ihe ihes =>
    unfold visitCounting.visitAllCounting
    simp only [ihe, ihes, pure_eq, atDepth_bind]
    rfl

end Scope

/-! ## Tasks on a compiler -/

/-- Compiles a task, counting the visits that are under way. -/
def Task.runCounting (s : Scope) : Task → Compiler.Run Task.Outcome
  | condition e => do
    let compiled ← s.visitCounting e
    let p ← Compiler.onSession (Session.onBinding (compiled.fragment.toPredicate s.config))
    return .predicate p
  | value e => do
    let compiled ← s.visitCounting e
    let x ← Compiler.onSession (Session.onBinding (compiled.fragment.toScalar s.config))
    return .scalar x
  | sortKey key => do
    let compiled ← s.visitCounting key.expr
    let x ← Compiler.onSession (Session.onBinding (compiled.fragment.toScalar s.config))
    return .sortKey ⟨x, key.direction⟩

/-- A task does what a computation on the session at the depth that the counter says does, and with
no visit under way that is what it does on the session. -/
theorem Task.exists_runCounting_eq (s : Scope) (task : Task) :
    ∃ run, task.runCounting s = Compiler.atDepth run ∧ run 0 = task.run s := by
  cases task with
  | condition e | value e | sortKey key =>
    unfold runCounting
    simp only [Scope.visitCounting_eq, Compiler.onSession_eq, Compiler.pure_eq,
      Compiler.atDepth_bind]
    refine ⟨_, rfl, ?_⟩
    -- At depth zero the two differ in how their sequences are grouped.
    simp only [run, Scope.condition, Scope.value, Scope.sortKey, bind_assoc, pure_bind]

namespace Task

/-- A task leaves the counter as it was, whether it succeeds or fails. -/
theorem depth_runCounting (s : Scope) (task : Task) (c : Compiler) :
    (finalState (task.runCounting s c)).depth = c.depth := by
  obtain ⟨run, hrun, -⟩ := task.exists_runCounting_eq s
  rw [hrun, Compiler.depth_atDepth]

/-- With no visit under way, a task does what it does on the session. -/
theorem runCounting_eq (s : Scope) (task : Task) {c : Compiler} (h : c.depth = 0) :
    task.runCounting s c = Compiler.onSession (task.run s) c := by
  obtain ⟨run, hrun, hzero⟩ := task.exists_runCounting_eq s
  rw [hrun, Compiler.atDepth, h, hzero]

end Task

namespace Scope

/-- The compiler that tasks leave behind, one after the other, whether they succeed or fail. -/
def compilerAfter (s : Scope) (c : Compiler) (tasks : List Task) : Compiler :=
  tasks.foldl (fun c task => finalState (task.runCounting s c)) c

/-- Tasks leave the counter as it was. -/
theorem depth_compilerAfter (s : Scope) (c : Compiler) (tasks : List Task) :
    (s.compilerAfter c tasks).depth = c.depth := by
  induction tasks generalizing c with
  | nil => rfl
  | cons task tasks ih =>
    calc (s.compilerAfter (finalState (task.runCounting s c)) tasks).depth
        = (finalState (task.runCounting s c)).depth := ih _
      _ = c.depth := task.depth_runCounting s c

/-- With no visit under way, tasks leave the same joins and parameters behind whether visits are
counted or told their depth. -/
theorem session_compilerAfter (s : Scope) {c : Compiler} (h : c.depth = 0) (tasks : List Task) :
    (s.compilerAfter c tasks).session = s.sessionAfter c.session tasks := by
  induction tasks generalizing c with
  | nil => rfl
  | cons task tasks ih =>
    -- The counter is zero before every task, so each one goes on from the same session.
    have hsession : (finalState (task.runCounting s c)).session =
        finalState (task.run s c.session) := by
      rw [task.runCounting_eq s h]
      exact Compiler.session_onSession _ _
    have hdepth : (finalState (task.runCounting s c)).depth = 0 :=
      (task.depth_runCounting s c).trans h
    calc (s.compilerAfter (finalState (task.runCounting s c)) tasks).session
        = s.sessionAfter (finalState (task.runCounting s c)).session tasks := ih hdepth
      _ = s.sessionAfter (finalState (task.run s c.session)) tasks := by rw [hsession]

/-- The bound on the depth is exact and survives errors. After any tasks, successful or not, a task
that succeeds is about an expression whose depth is within the bound, and one that is refused as too
deep is about an expression whose depth is beyond the bound, which the error names. Whatever visits
are under way, a task leaves the counter as it was; so none is under way after any tasks, and on the
session a task does what it does without a counter. -/
theorem depth_bound_exact (s : Scope) (t : Session) (earlier : List Task) (task : Task) :
    (∀ outcome c, task.runCounting s (s.compilerAfter (.resume t) earlier) = .ok outcome c →
      task.expr.depth ≤ s.config.maxDepth) ∧
    (∀ n c, task.runCounting s (s.compilerAfter (.resume t) earlier) = .error (.tooDeep n) c →
      n = s.config.maxDepth ∧ s.config.maxDepth < task.expr.depth) ∧
    (∀ c, (finalState (task.runCounting s c)).depth = c.depth) ∧
    s.compilerAfter (.resume t) earlier = .resume (s.sessionAfter t earlier) ∧
    task.runCounting s (.resume (s.sessionAfter t earlier)) =
      Compiler.onSession (task.run s) (.resume (s.sessionAfter t earlier)) := by
  have hafter : s.compilerAfter (.resume t) earlier = .resume (s.sessionAfter t earlier) :=
    Compiler.ext (s.session_compilerAfter rfl earlier) (s.depth_compilerAfter _ earlier)
  have hchecks : ChecksDepth s.config.maxDepth (task.expr.depth ≤ s.config.maxDepth)
    (Compiler.onSession (task.run s)) := Compiler.checksDepth_onSession (task.run_checksDepth s)
  rw [hafter, task.runCounting_eq s rfl]
  refine ⟨fun _ _ h => hchecks.ok h, fun n c h => ?_, task.depth_runCounting s, rfl, rfl⟩
  obtain ⟨hn, hdeep⟩ := hchecks.tooDeep h
  exact ⟨hn, Nat.not_le.mp hdeep⟩

end Scope

/-! ## A bound on conditions of the shop -/

namespace Shop

/-- Customers, with conditions of depth two at most. -/
def shallow : Scope := { customers with config := { customers.config with maxDepth := 2 } }

/-- A condition that is one level deeper than the one for a large order. -/
def smallOrder : Expr := .unary .not largeOrder

/-- A condition that is too deep is refused, and after it one that is as deep as the bound allows is
compiled, with no visit under way after either. -/
theorem largeOrder_within_bound :
    (∃ c, Task.runCounting shallow (.condition smallOrder) (.resume .start) =
      .error (.tooDeep 2) c ∧ 2 < smallOrder.depth ∧ c.depth = 0) ∧
    ∃ outcome c, Task.runCounting shallow (.condition largeOrder)
      (shallow.compilerAfter (.resume .start) [.condition smallOrder]) = .ok outcome c ∧
        largeOrder.depth ≤ 2 ∧ c.depth = 0 := by
  refine ⟨?_, ?_⟩
  · obtain ⟨c, hrun⟩ : ∃ c, Task.runCounting shallow (.condition smallOrder) (.resume .start) =
        .error (.tooDeep 2) c := ⟨_, rfl⟩
    obtain ⟨-, hdeep, hcounter, -⟩ := shallow.depth_bound_exact .start [] (.condition smallOrder)
    have hdepth := hcounter (.resume .start)
    rw [hrun] at hdepth
    exact ⟨c, hrun, (hdeep 2 c hrun).2, hdepth⟩
  · obtain ⟨hfits, -, hcounter, hafter, -⟩ :=
      shallow.depth_bound_exact .start [.condition smallOrder] (.condition largeOrder)
    obtain ⟨outcome, c, hrun⟩ := exists_of_succeeds
      (show succeeds (Task.runCounting shallow (.condition largeOrder)
        (shallow.compilerAfter (.resume .start) [.condition smallOrder])) = true by decide +kernel)
    have hdepth := hcounter (shallow.compilerAfter (.resume .start) [.condition smallOrder])
    rw [hrun, hafter] at hdepth
    exact ⟨outcome, c, hrun, hfits outcome c hrun, hdepth⟩

end Shop

end EntityQuery
