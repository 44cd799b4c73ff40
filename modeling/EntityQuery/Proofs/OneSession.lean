import EntityQuery.Proofs.Resumption
import EntityQuery.Proofs.Steps
import EntityQuery.Sample.Orders

/-!
# Planning in one session

`Scope.compileOptions` compiles query options from one session: the filter, then the sort keys in
their order, then what is selected or expanded. A plan is made in steps, of which each goes on from
what the step before it has stored. `assemble_eq_session` says that both come to the same: to the
same condition, sort keys, projection, joins and parameters where a plan is made, and to the same
error at the same expression where the filter or a sort key cannot be planned.

The invariant between the steps is `Session.Continues`: what the plan stores goes on like the one
session does. A step that gathers keeps it, and has the same result in both
(`continuing_ok_session`, `continuing_error_session`). What is expanded twice counts once in a plan,
so the expansions of the session are compared without repetitions.
-/

namespace EntityQuery

/-! ## Compilation in one session -/

/-- What is compiled from query options. -/
structure CompiledOptions where
  /-- The condition, if there is one. -/
  predicate? : Option Predicate
  /-- The sort keys. -/
  orderBy : List SortKey
  /-- What is returned. -/
  projection : Projection

/-- The projection with each expansion once. -/
def Projection.distinct : Projection → Projection
  | expand items => expand items.eraseDups
  | other => other

/-- An expression among query options that may fail to compile. -/
inductive Site
  | filter
  /-- A sort key, with those before and behind it. -/
  | sortKey (before : List OrderKey) (key : OrderKey) (after : List OrderKey)

namespace Scope

open Session

/-- Compiles the condition, if there is one. -/
def condition? (s : Scope) : Option Expr → Session.Run (Option Predicate)
  | none => return none
  | some e => do
    let p ← s.condition e
    return some p

/-- What a path leads to, as an expansion. -/
def expansion (s : Scope) (path : List String) (place : Place) : Expansion :=
  ⟨path, place.alias?.getD s.root⟩

/-- What some paths lead to, from left to right. -/
def expansions (s : Scope) : List (List String) → JoinPlan.Run (List Expansion)
  | [] => return []
  | path :: paths => do
    let place ← s.resolve path
    let rest ← s.expansions paths
    return s.expansion path place :: rest

/-- Compiles what is selected or expanded. -/
def projection (s : Scope) (select? expand? : Option String) : Session.Run Projection :=
  match select?, expand? with
  | some select, _ =>
    if Planner.selectsAll (splitPaths select) then return .all
    else do
      let columns ← onJoins (s.resolveProperties (splitPaths select))
      return .columns columns
  | none, some expand => do
    let items ← onJoins (s.expansions (splitPaths expand))
    return .expand items
  | none, none => return .all

/-- Compiles query options from one session. -/
def compileOptions (s : Scope) (o : QueryOptions) : Session.Run CompiledOptions := do
  let predicate? ← s.condition? o.filter
  let orderBy ← s.sortKeys o.orderBy
  let projection ← s.projection o.select o.expand
  return ⟨predicate?, orderBy, projection⟩

/-- A session that has compiled everything before an expression fails at it. -/
def FailsAt (s : Scope) (o : QueryOptions) (err : PlanError) : Site → Prop
  | .filter => ∃ e t, o.filter = some e ∧ s.condition e .start = .error err t
  | .sortKey before key after =>
    o.orderBy = before ++ key :: after ∧
      ∃ p? t sortKeys t' t'', s.condition? o.filter .start = .ok p? t ∧
        s.sortKeys before t = .ok sortKeys t' ∧ s.sortKey key t' = .error err t''

end Scope

/-- The steps of a planner fail at an expression: the filter cannot be planned, or the sort keys
before one can and together with it cannot. -/
def Planner.FailsAt (planner : Planner) (entity : String) (o : QueryOptions) (err : PlanError) :
    Site → Prop
  | .filter => ∃ started, planner.start entity = .ok started ∧
      planner.filter started o.filter = .error err
  | .sortKey before key after =>
    o.orderBy = before ++ key :: after ∧
      ∃ started filtered ordered, planner.start entity = .ok started ∧
        planner.filter started o.filter = .ok filtered ∧
        planner.orderBy filtered before = .ok ordered ∧
        planner.orderBy filtered (before ++ [key]) = .error err

/-- The plan of the filter and the sort keys of query options. -/
def Planner.ordered (planner : Planner) (entity : String) (o : QueryOptions) :
    Except PlanError QueryPlan := do
  let plan ← planner.start entity
  let plan ← planner.filter plan o.filter
  planner.orderBy plan o.orderBy

/-! ## Sort keys -/

namespace Scope

variable {s : Scope} {t t' : Session} {err : PlanError}

/-- Sort keys that cannot be compiled fail at the first one that cannot be, when those before it
are compiled. -/
theorem sortKeys_error {keys : List OrderKey} (h : s.sortKeys keys t = .error err t') :
    ∃ before key after sortKeys t₁, keys = before ++ key :: after ∧
      s.sortKeys before t = .ok sortKeys t₁ ∧ s.sortKey key t₁ = .error err t' := by
  induction keys generalizing t with
  | nil => cases h
  | cons key keys ih =>
    unfold sortKeys at h
    rcases bind_eq_error.mp h with hkey | ⟨first, t₁, hkey, h⟩
    · exact ⟨[], key, keys, [], t, rfl, rfl, hkey⟩
    · rcases bind_eq_error.mp h with hkeys | ⟨rest, t₂, -, h⟩
      · obtain ⟨before, key', after, sortKeys, t₂, rfl, hbefore, hkey'⟩ := ih hkeys
        refine ⟨key :: before, key', after, first :: sortKeys, t₂, rfl, ?_, hkey'⟩
        unfold Scope.sortKeys
        exact bind_eq_ok.mpr ⟨first, t₁, hkey, bind_eq_ok.mpr ⟨sortKeys, t₂, hbefore, rfl⟩⟩
      · cases h

/-- Sort keys cannot be compiled when one cannot be after those before it are. -/
theorem sortKeys_append_error {before after : List OrderKey} {key : OrderKey}
    {sortKeys : List SortKey} {t₁ : Session} (hbefore : s.sortKeys before t = .ok sortKeys t₁)
    (hkey : s.sortKey key t₁ = .error err t') :
    s.sortKeys (before ++ key :: after) t = .error err t' := by
  induction before generalizing t sortKeys with
  | nil =>
    obtain ⟨rfl, rfl⟩ := pure_eq_ok.mp hbefore
    exact bind_eq_error.mpr (.inl hkey)
  | cons first before ih =>
    unfold Scope.sortKeys at hbefore
    obtain ⟨_, t₂, hfirst, hbefore⟩ := bind_eq_ok.mp hbefore
    obtain ⟨rest, t₃, hrest, hbefore⟩ := bind_eq_ok.mp hbefore
    obtain ⟨-, rfl⟩ := pure_eq_ok.mp hbefore
    exact bind_eq_error.mpr (.inr ⟨_, t₂, hfirst, bind_eq_error.mpr (.inl (ih hrest))⟩)

end Scope

/-! ## Expansions -/

section

variable {α : Type} [BEq α] [LawfulBEq α] {items : List α} {item : α}

/-- An item that is there already counts once. -/
theorem eraseDups_append_cons_of_mem (h : item ∈ items) (rest : List α) :
    (items ++ item :: rest).eraseDups = (items ++ rest).eraseDups := by
  rw [List.eraseDups_append, List.eraseDups_append]
  unfold List.removeAll
  rw [List.filter_cons_of_neg (by simpa using h)]

/-- An item that is not there yet counts. -/
theorem eraseDups_append_singleton (hitems : items.eraseDups = items) (h : item ∉ items) :
    (items ++ [item]).eraseDups = items ++ [item] := by
  rw [List.eraseDups_append, hitems]
  unfold List.removeAll
  rw [List.filter_cons_of_pos (by simpa using h)]
  rfl

end

namespace Scope

variable {s : Scope} {plan plan' : JoinPlan}

/-- An expansion that names what its path leads to. -/
def Leads (s : Scope) (plan : JoinPlan) (item : Expansion) : Prop :=
  ∃ place, s.place? plan item.path = some place ∧ item = s.expansion item.path place

/-- The expansions of some paths are those of the first and of the others. -/
theorem expansions_cons {path : List String} {paths : List (List String)} {place : Place}
    {all : List Expansion} {plan₁ : JoinPlan} (hresolve : s.resolve path plan = .ok place plan₁)
    (hall : s.expansions paths plan₁ = .ok all plan') :
    s.expansions (path :: paths) plan = .ok (s.expansion path place :: all) plan' := by
  unfold expansions
  exact bind_eq_ok.mpr ⟨place, plan₁, hresolve, bind_eq_ok.mpr ⟨all, plan', hall, rfl⟩⟩

/-- Paths that are expanded one after the other, each once, come to what they lead to, without
repetitions. A path that is there already leads where it did before. -/
theorem expandPaths_eq_expansions {items items' : List Expansion} {paths : List (List String)}
    (hleads : ∀ item ∈ items, s.Leads plan item) (hitems : items.eraseDups = items)
    (h : s.expandPaths items paths plan = .ok items' plan') :
    ∃ all, s.expansions paths plan = .ok all plan' ∧ items' = (items ++ all).eraseDups := by
  induction paths generalizing items plan with
  | nil =>
    obtain ⟨rfl, rfl⟩ := pure_eq_ok.mp h
    refine ⟨[], rfl, ?_⟩
    rw [List.append_nil, hitems]
  | cons path paths ih =>
    obtain ⟨-, place, plan₁, hresolve, hrest⟩ := expandPaths_cons_ok.mp h
    have hplace := resolve_ok hresolve
    have hgrows := (s.resolve_moves path).ok hresolve
    have hleads₁ : ∀ item ∈ items, s.Leads plan₁ item := by
      intro item hmem
      obtain ⟨place', hplace', hitem⟩ := hleads item hmem
      exact ⟨place', place?_of_grows hgrows hplace', hitem⟩
    by_cases hany : items.any (·.path == path) = true
    · rw [if_pos hany] at hrest
      obtain ⟨all, hall, rfl⟩ := ih hleads₁ hitems hrest
      refine ⟨s.expansion path place :: all, expansions_cons hresolve hall, ?_⟩
      -- The item of the path names the same place.
      obtain ⟨item, hmem, heq⟩ := List.any_eq_true.mp hany
      obtain ⟨place', hplace', hitem⟩ := hleads₁ item hmem
      rw [eq_of_beq heq] at hplace' hitem
      rw [hplace, Option.some.injEq] at hplace'
      subst hplace'
      rw [eraseDups_append_cons_of_mem (hitem ▸ hmem)]
    · rw [if_neg hany] at hrest
      have hnew : s.expansion path place ∉ items := by
        intro hmem
        exact hany (List.any_eq_true.mpr ⟨_, hmem, beq_self_eq_true path⟩)
      have hleads₂ : ∀ item ∈ items ++ [s.expansion path place], s.Leads plan₁ item := by
        intro item hmem
        rcases List.mem_append.mp hmem with hmem | hmem
        · exact hleads₁ item hmem
        · rw [List.mem_singleton.mp hmem]
          exact ⟨place, hplace, rfl⟩
      obtain ⟨all, hall, rfl⟩ := ih hleads₂ (eraseDups_append_singleton hitems hnew) hrest
      refine ⟨s.expansion path place :: all, expansions_cons hresolve hall, ?_⟩
      rw [List.append_assoc, List.singleton_append]

end Scope

/-! ## Steps -/

namespace Planner

/-- What the paths of queries for an entity type are resolved against. -/
def scopeOf (planner : Planner) (entity : String) : Scope :=
  ⟨planner.metadata, entity, planner.config⟩

/-- A plan and the one session stand at the same place: the plan has what the session has compiled,
and what it stores goes on like the session. -/
structure Matches (planner : Planner) (entity : String) (compiled : CompiledOptions)
    (plan : QueryPlan) (t : Session) : Prop where
  /-- The plan is for the entity type. -/
  root : plan.root = entity
  /-- Its condition is the one that was compiled. -/
  predicate? : plan.predicate? = compiled.predicate?
  /-- Its sort keys are those that were compiled. -/
  orderBy : plan.orderBy = compiled.orderBy
  /-- It returns what was compiled, with each expansion once. -/
  projection : plan.projection = compiled.projection.distinct
  /-- The next step goes on like the session. -/
  session : plan.session.Continues planner.config t

variable {planner : Planner} {entity : String} {plan plan' : QueryPlan} {t : Session}
  {p? : Option Predicate} {orderBy : List SortKey} {projection : Projection} {err : PlanError}

/-- The paths of a plan are resolved against what those of its session are. -/
theorem Matches.scope {compiled : CompiledOptions} (h : planner.Matches entity compiled plan t) :
    planner.scope plan = planner.scopeOf entity := by
  unfold Planner.scope scopeOf
  rw [h.root]

/-- A plan that is started stands where a session starts. -/
theorem matches_start (planner : Planner) (entity : String) :
    planner.Matches entity ⟨none, [], .all⟩ (.empty entity planner.config.rootAlias?) .start where
  root := rfl
  predicate? := rfl
  orderBy := rfl
  projection := rfl
  session := ⟨rfl, rfl, Binding.isTight_resume _ _, Binding.isTight_resume _ _⟩

/-- The step for the filter is that of the one session. -/
theorem Matches.of_filter {e? : Option Expr}
    (h : planner.Matches entity ⟨none, orderBy, projection⟩ plan t)
    (hstep : planner.filter plan e? = .ok plan') :
    ∃ p? t', (planner.scopeOf entity).condition? e? t = .ok p? t' ∧
      planner.Matches entity ⟨p?, orderBy, projection⟩ plan' t' := by
  cases e? with
  | none =>
    rw [filter_none_ok hstep]
    exact ⟨none, t, rfl, h⟩
  | some e =>
    obtain ⟨p, r, hr, rfl⟩ := filter_some_ok hstep
    rw [h.scope] at hr
    have hmirrors := ((planner.scopeOf entity).condition_gathers e).mirrors
    obtain ⟨t', ht', hcontinues⟩ := hmirrors.ok h.session hr
    refine ⟨some p, t', bind_eq_ok.mpr ⟨p, t', ht', rfl⟩, ?_⟩
    exact { h with predicate? := rfl, session := hcontinues.resume }

/-- The step for the sort keys is that of the one session. -/
theorem Matches.of_orderBy {keys : List OrderKey}
    (h : planner.Matches entity ⟨p?, [], projection⟩ plan t)
    (hstep : planner.orderBy plan keys = .ok plan') :
    ∃ sortKeys t', (planner.scopeOf entity).sortKeys keys t = .ok sortKeys t' ∧
      planner.Matches entity ⟨p?, sortKeys, projection⟩ plan' t' := by
  obtain ⟨sortKeys, r, hr, rfl⟩ := orderBy_ok hstep
  rw [h.scope] at hr
  have hmirrors := ((planner.scopeOf entity).sortKeys_gathers keys).mirrors
  obtain ⟨t', ht', hcontinues⟩ := hmirrors.ok h.session hr
  have hnone : plan.orderBy = [] := h.orderBy
  refine ⟨sortKeys, t', ht', { h with orderBy := ?_, session := hcontinues.resume }⟩
  rw [hnone]
  rfl

/-- The step for the paging stands still. -/
theorem Matches.of_paging {compiled : CompiledOptions} {top? skip? : Option String}
    (h : planner.Matches entity compiled plan t)
    (hstep : planner.paging plan top? skip? = .ok plan') :
    planner.Matches entity compiled plan' t := by
  obtain ⟨first?, max?, rfl⟩ := paging_ok hstep
  exact { h with }

/-- The step for the projection is that of the one session, with each expansion once. -/
theorem Matches.of_projection {select? expand? : Option String}
    (h : planner.Matches entity ⟨p?, orderBy, .all⟩ plan t)
    (hstep : planner.projection plan select? expand? = .ok plan') :
    ∃ projection t', (planner.scopeOf entity).projection select? expand? t = .ok projection t' ∧
      planner.Matches entity ⟨p?, orderBy, projection⟩ plan' t' := by
  have hjoins : plan.joins = t.joins := h.session.joins
  cases projection_ok hstep with
  | nothing => exact ⟨.all, t, rfl, h⟩
  | all hselects =>
    refine ⟨.all, t, ?_, { h with projection := rfl }⟩
    unfold Scope.projection
    dsimp only
    rw [if_pos hselects]
    rfl
  | @columns select columns joins hselects hcolumns =>
    rw [h.scope, hjoins] at hcolumns
    refine ⟨.columns columns, { t with joins }, ?_,
      { h with projection := rfl, session := ⟨rfl, h.session.binding⟩ }⟩
    unfold Scope.projection
    dsimp only
    rw [hselects, if_neg Bool.false_ne_true]
    exact bind_eq_ok.mpr ⟨columns, _, onJoins_eq_ok.mpr ⟨joins, hcolumns, rfl⟩, rfl⟩
  | @expand expand items joins hitems =>
    rw [h.scope, hjoins] at hitems
    obtain ⟨all, hexpansions, rfl⟩ :=
      Scope.expandPaths_eq_expansions (List.forall_mem_nil _) rfl hitems
    refine ⟨.expand all, { t with joins }, ?_,
      { h with projection := rfl, session := ⟨rfl, h.session.binding⟩ }⟩
    exact bind_eq_ok.mpr ⟨all, _, onJoins_eq_ok.mpr ⟨joins, hexpansions, rfl⟩, rfl⟩

/-- Where a plan is made, the one session compiles the same. -/
theorem compileOptions_of_assemble {o : QueryOptions}
    (h : planner.assemble entity o = .ok plan) :
    ∃ compiled t, (planner.scopeOf entity).compileOptions o .start = .ok compiled t ∧
      planner.Matches entity compiled plan t := by
  obtain ⟨started, filtered, ordered, paged, hstart, hfilter, horder, hpaging, hprojection⟩ :=
    assemble_ok h
  obtain ⟨-, rfl⟩ := start_ok hstart
  obtain ⟨p?, t₁, hp, h₁⟩ := (matches_start planner entity).of_filter hfilter
  obtain ⟨sortKeys, t₂, hsortKeys, h₂⟩ := h₁.of_orderBy horder
  obtain ⟨projection, t₃, hproject, h₃⟩ := (h₂.of_paging hpaging).of_projection hprojection
  refine ⟨⟨p?, sortKeys, projection⟩, t₃, ?_, h₃⟩
  exact bind_eq_ok.mpr ⟨p?, t₁, hp, bind_eq_ok.mpr ⟨sortKeys, t₂, hsortKeys,
    bind_eq_ok.mpr ⟨projection, t₃, hproject, rfl⟩⟩⟩

/-- A plan is made by going on from the plan of the filter and the sort keys. -/
theorem assemble_eq_ordered (planner : Planner) (entity : String) (o : QueryOptions) :
    planner.assemble entity o = (do
      let plan ← planner.ordered entity o
      let plan ← planner.paging plan o.top o.skip
      planner.projection plan o.select o.expand) := by
  unfold assemble ordered
  simp only [bind_assoc]

/-! ## Failures -/

/-- The step for the filter fails where the one session does. -/
theorem Matches.filter_error {compiled : CompiledOptions} {e? : Option Expr}
    (h : planner.Matches entity compiled plan t) (hstep : planner.filter plan e? = .error err) :
    ∃ e t', e? = some e ∧ (planner.scopeOf entity).condition e t = .error err t' := by
  cases e? with
  | none => cases hstep
  | some e =>
    obtain ⟨r, hr⟩ := filter_some_error.mp hstep
    rw [h.scope] at hr
    have hmirrors := ((planner.scopeOf entity).condition_gathers e).mirrors
    obtain ⟨t', ht', -⟩ := hmirrors.error h.session hr
    exact ⟨e, t', rfl, ht'⟩

/-- The step for the sort keys fails at the sort key at which the one session does: those before it
are planned and compiled, and it is not. -/
theorem Matches.orderBy_error {compiled : CompiledOptions} {keys : List OrderKey}
    (h : planner.Matches entity compiled plan t)
    (hstep : planner.orderBy plan keys = .error err) :
    ∃ before key after, keys = before ++ key :: after ∧
      (∃ ordered, planner.orderBy plan before = .ok ordered) ∧
      planner.orderBy plan (before ++ [key]) = .error err ∧
      ∃ sortKeys t' t'', (planner.scopeOf entity).sortKeys before t = .ok sortKeys t' ∧
        (planner.scopeOf entity).sortKey key t' = .error err t'' := by
  obtain ⟨r', hr'⟩ := Planner.orderBy_error.mp hstep
  obtain ⟨before, key, after, sortKeys, r, rfl, hbefore, hkey⟩ := Scope.sortKeys_error hr'
  refine ⟨before, key, after, rfl, ?_, ?_, ?_⟩
  · cases hordered : planner.orderBy plan before with
    | ok ordered => exact ⟨ordered, rfl⟩
    | error e =>
      obtain ⟨_, hfails⟩ := Planner.orderBy_error.mp hordered
      rw [hbefore] at hfails
      cases hfails
  · exact Planner.orderBy_error.mpr ⟨r', Scope.sortKeys_append_error hbefore hkey⟩
  · rw [h.scope] at hbefore hkey
    have hmirrors := ((planner.scopeOf entity).sortKeys_gathers before).mirrors
    obtain ⟨t', ht', hcontinues⟩ := hmirrors.ok h.session hbefore
    have hmirrors' := ((planner.scopeOf entity).sortKey_gathers key).mirrors
    obtain ⟨t'', ht'', -⟩ := hmirrors'.error hcontinues hkey
    exact ⟨sortKeys, t', t'', ht', ht''⟩

/-- Where a filter or a sort key cannot be planned, the one session fails at it. -/
theorem failsAt_of_ordered (hknown : planner.metadata.hasEntity entity = true) {o : QueryOptions}
    (h : planner.ordered entity o = .error err) :
    ∃ site, planner.FailsAt entity o err site ∧ (planner.scopeOf entity).FailsAt o err site := by
  have hstart : planner.start entity = .ok (.empty entity planner.config.rootAlias?) :=
    if_pos hknown
  have hmatches := matches_start planner entity
  unfold ordered at h
  rcases except_bind_eq_error.mp h with hfails | ⟨started, hstarted, h⟩
  · rw [hstart] at hfails
    cases hfails
  rw [hstart] at hstarted
  cases hstarted
  rcases except_bind_eq_error.mp h with hfilter | ⟨filtered, hfilter, horder⟩
  · obtain ⟨e, t, he, hcondition⟩ := hmatches.filter_error hfilter
    exact ⟨.filter, ⟨_, hstart, hfilter⟩, e, t, he, hcondition⟩
  · obtain ⟨p?, t₁, hp, h₁⟩ := hmatches.of_filter hfilter
    obtain ⟨before, key, after, hkeys, ⟨plan, hbefore⟩, hkey, sortKeys, t', t'', ht', ht''⟩ :=
      h₁.orderBy_error horder
    exact ⟨.sortKey before key after, ⟨hkeys, _, filtered, plan, hstart, hfilter, hbefore, hkey⟩,
      hkeys, p?, t₁, sortKeys, t', t'', hp, ht', ht''⟩

end Planner

/-- A session that fails at an expression compiles no query options. -/
theorem Scope.FailsAt.compileOptions {s : Scope} {o : QueryOptions} {err : PlanError} {site : Site}
    (h : s.FailsAt o err site) : ∃ t, s.compileOptions o .start = .error err t := by
  cases site with
  | filter =>
    obtain ⟨e, t, he, hcondition⟩ := h
    refine ⟨t, bind_eq_error.mpr (.inl ?_)⟩
    rw [he]
    exact bind_eq_error.mpr (.inl hcondition)
  | sortKey before key after =>
    obtain ⟨hkeys, p?, t, sortKeys, t', t'', hp, hbefore, hkey⟩ := h
    refine ⟨t'', bind_eq_error.mpr (.inr ⟨p?, t, hp, bind_eq_error.mpr (.inl ?_)⟩)⟩
    rw [hkeys]
    exact sortKeys_append_error hbefore hkey

/-- Planning in steps comes to what one session comes to. Where a plan is made, the session compiles
the same condition, sort keys and projection, with the same joins and the same parameters; where the
filter or a sort key cannot be planned, the session fails at the same expression with the same
error. -/
theorem Planner.assemble_eq_session {planner : Planner} {entity : String}
    (hknown : planner.metadata.hasEntity entity = true) (o : QueryOptions) :
    (∀ plan, planner.assemble entity o = .ok plan →
      ∃ compiled t, (planner.scopeOf entity).compileOptions o .start = .ok compiled t ∧
        plan.predicate? = compiled.predicate? ∧ plan.orderBy = compiled.orderBy ∧
        plan.projection = compiled.projection.distinct ∧
        plan.joins = t.joins ∧ plan.parameters = t.parameters) ∧
    ∀ err, planner.ordered entity o = .error err →
      planner.assemble entity o = .error err ∧
      (∃ t, (planner.scopeOf entity).compileOptions o .start = .error err t) ∧
      ∃ site, planner.FailsAt entity o err site ∧ (planner.scopeOf entity).FailsAt o err site := by
  constructor
  · intro plan h
    obtain ⟨compiled, t, hcompiled, hmatches⟩ := compileOptions_of_assemble h
    exact ⟨compiled, t, hcompiled, hmatches.predicate?, hmatches.orderBy, hmatches.projection,
      hmatches.session.joins, hmatches.session.binding.parameters⟩
  · intro err h
    obtain ⟨site, hplanner, hsession⟩ := failsAt_of_ordered hknown h
    refine ⟨?_, hsession.compileOptions, site, hplanner, hsession⟩
    rw [assemble_eq_ordered]
    exact except_bind_eq_error.mpr (.inl h)

/-- The sample query is planned as one session compiles it. With a condition for a second sort key,
planning it fails as the session does. -/
theorem Shop.largeOrders_one_session :
    (∃ plan compiled t, planner.assemble "Customer" largeOrders = .ok plan ∧
      customers.compileOptions largeOrders .start = .ok compiled t ∧
      plan.predicate? = compiled.predicate? ∧ plan.orderBy = compiled.orderBy ∧
      plan.projection = compiled.projection.distinct ∧
      plan.joins = t.joins ∧ plan.parameters = t.parameters) ∧
    let o := { largeOrders with
      orderBy := [⟨namePart, .descending⟩, ⟨.unary .not namePart, .ascending⟩] }
    ∃ err, planner.assemble "Customer" o = .error err ∧
      (∃ t, customers.compileOptions o .start = .error err t) ∧
      ∃ site, planner.FailsAt "Customer" o err site ∧ customers.FailsAt o err site := by
  have hknown : planner.metadata.hasEntity "Customer" = true := by decide +kernel
  constructor
  · obtain ⟨plan, h⟩ := exists_of_isOk
      (show (planner.assemble "Customer" largeOrders).isOk = true by decide +kernel)
    obtain ⟨compiled, t, hcompiled⟩ := (Planner.assemble_eq_session hknown largeOrders).1 plan h
    exact ⟨plan, compiled, t, h, hcompiled⟩
  · intro o
    obtain ⟨err, h⟩ := exists_of_not_isOk
      (show (planner.ordered "Customer" o).isOk = false by decide +kernel)
    exact ⟨err, (Planner.assemble_eq_session hknown o).2 err h⟩

end EntityQuery
