import EntityQuery.Plan.QueryPlan
import EntityQuery.Proofs.Aliases
import EntityQuery.Proofs.Sessions

/-!
# Steps of planning

What the steps that make a plan do to it when they succeed. A step that compiles something goes on
from the session of the plan and stores the session that it ends in (`continuing_ok`); the others
change a field. Each step has its own lemma, `start_ok` up to `projection_ok`, and the choice that a
projection makes is the relation `Planner.Projects`. `assemble_ok` puts the steps in their order.

`Planner.Reaches` is any order of steps: a plan that is reached was started and went on by any
steps. Whatever a step is, it only adds joins and parameters (`Step.extends`), so the joins of a
plan that is reached are sound (`Reaches.sound`).
-/

open Relation (ReflTransGen)

namespace EntityQuery

namespace Scope

variable {s : Scope} {plan plan' : JoinPlan}

/-- Properties are resolved one after the other. -/
theorem resolveProperties_cons_ok {path : List String} {paths : List (List String)}
    {columns : List Scalar} :
    s.resolveProperties (path :: paths) plan = .ok columns plan' ↔
      ∃ column rest plan₁, s.resolveProperty path plan = .ok column plan₁ ∧
        s.resolveProperties paths plan₁ = .ok rest plan' ∧ columns = column :: rest := by
  rw [resolveProperties]
  simp only [bind_eq_ok, pure_eq_ok]
  constructor
  · rintro ⟨column, plan₁, hcolumn, rest, _, hrest, rfl, rfl⟩
    exact ⟨column, rest, plan₁, hcolumn, hrest, rfl⟩
  · rintro ⟨column, rest, plan₁, hcolumn, hrest, rfl⟩
    exact ⟨column, plan₁, hcolumn, rest, plan', hrest, rfl, rfl⟩

/-- Paths to fetch are resolved one after the other, none longer than the settings allow, and one
that is there already is not added. -/
theorem expandPaths_cons_ok {items items' : List Expansion} {path : List String}
    {paths : List (List String)} :
    s.expandPaths items (path :: paths) plan = .ok items' plan' ↔
      path.length ≤ s.config.maxExpandDepth ∧
      ∃ place plan₁, s.resolve path plan = .ok place plan₁ ∧
        s.expandPaths (if items.any (·.path == path) then items
          else items ++ [⟨path, place.alias?.getD s.root⟩]) paths plan₁ = .ok items' plan' := by
  rw [expandPaths]
  dsimp only
  split
  next hdeep =>
    constructor
    · intro h
      obtain ⟨_, _, hthrow, -⟩ := bind_eq_ok.mp h
      exact absurd hthrow throw_ne_ok
    · rintro ⟨hlength, -⟩
      exact absurd hlength (Nat.not_le.mpr hdeep)
  next hdeep =>
    -- What is done with a path that is there is done with the items as they are.
    have hbranch : ∀ (place : Place) (plan₁ : JoinPlan),
        (if items.any (·.path == path) then s.expandPaths items paths
          else s.expandPaths (items ++ [⟨path, place.alias?.getD s.root⟩]) paths) plan₁ =
        s.expandPaths (if items.any (·.path == path) then items
          else items ++ [⟨path, place.alias?.getD s.root⟩]) paths plan₁ := by
      intro place plan₁
      split <;> rfl
    rw [and_iff_right (Nat.not_lt.mp hdeep)]
    refine bind_eq_ok.trans ?_
    simp only [hbranch]

/-- Resolving properties is a walk that adds joins. -/
theorem resolveProperties_moves (s : Scope) (paths : List (List String)) :
    Moves s.Adds (s.resolveProperties paths) := by
  induction paths with
  | nil => exact Moves.pure _
  | cons path paths ih =>
    unfold resolveProperties
    exact (s.resolveProperty_moves path).bind fun _ => ih.bind fun _ => Moves.pure _

/-- Resolving paths to fetch, when that succeeds, is a walk that adds joins. -/
theorem expandPaths_grows {items items' : List Expansion} {paths : List (List String)}
    (h : s.expandPaths items paths plan = .ok items' plan') :
    ReflTransGen s.Adds plan plan' := by
  induction paths generalizing items plan with
  | nil =>
    obtain ⟨-, rfl⟩ := pure_eq_ok.mp h
    exact .refl
  | cons path paths ih =>
    obtain ⟨-, place, plan₁, hresolve, hrest⟩ := expandPaths_cons_ok.mp h
    exact ((s.resolve_moves path).ok hresolve).trans (ih hrest)

end Scope

namespace QueryPlan

/-- The session that the next step goes on from. -/
def session (plan : QueryPlan) : Session := .resume plan.joins plan.parameters

/-- The plan with the joins and parameters of a session. -/
def withSession (plan : QueryPlan) (t : Session) : QueryPlan :=
  { plan with joins := t.joins, parameters := t.parameters }

end QueryPlan

namespace Planner

variable {planner : Planner} {plan plan' : QueryPlan}

/-- A step that compiles goes on from the session of the plan, and stores the one it ends in. -/
theorem continuing_ok {α : Type} {run : Session.Run α} {a : α} :
    continuing plan run = .ok (a, plan') ↔
      ∃ t, run plan.session = .ok a t ∧ plan' = plan.withSession t := by
  unfold continuing QueryPlan.session
  cases run (.resume plan.joins plan.parameters) with
  | ok a' t =>
    constructor
    · intro h
      cases h
      exact ⟨t, rfl, rfl⟩
    · rintro ⟨t', h, rfl⟩
      cases h
      rfl
  | error e t =>
    constructor
    · intro h
      cases h
    · rintro ⟨t', h, -⟩
      cases h

/-- A step that compiles fails with the error of what it compiles. -/
theorem continuing_error {α : Type} {run : Session.Run α} {e : PlanError} :
    continuing plan run = .error e ↔ ∃ t, run plan.session = .error e t := by
  unfold continuing QueryPlan.session
  cases run (.resume plan.joins plan.parameters) with
  | ok a' t =>
    constructor
    · intro h
      cases h
    · rintro ⟨t', h⟩
      cases h
  | error e' t =>
    constructor
    · intro h
      cases h
      exact ⟨t, rfl⟩
    · rintro ⟨t', h⟩
      cases h
      rfl

/-- A plan is started empty, for an entity type that is known. -/
theorem start_ok {entity : String} (h : planner.start entity = .ok plan) :
    planner.metadata.hasEntity entity = true ∧
      plan = .empty entity planner.config.rootAlias? := by
  unfold start at h
  split at h
  next hknown =>
    cases h
    exact ⟨hknown, rfl⟩
  next => cases h

/-- No filter changes nothing. -/
theorem filter_none_ok (h : planner.filter plan none = .ok plan') : plan' = plan := by
  cases h
  rfl

/-- A filter is compiled to the condition of the plan. -/
theorem filter_some_ok {e : Expr} (h : planner.filter plan (some e) = .ok plan') :
    ∃ p t, (planner.scope plan).condition e plan.session = .ok p t ∧
      plan' = { plan.withSession t with predicate? := some p } := by
  unfold filter at h
  obtain ⟨⟨p, plan₁⟩, hrun, h⟩ := except_bind_eq_ok.mp h
  obtain ⟨t, hcondition, rfl⟩ := continuing_ok.mp hrun
  cases h
  exact ⟨p, t, hcondition, rfl⟩

/-- The step for a filter fails with the error of its compilation. -/
theorem filter_some_error {e : Expr} {err : PlanError} :
    planner.filter plan (some e) = .error err ↔
      ∃ t, (planner.scope plan).condition e plan.session = .error err t := by
  unfold filter
  rw [except_bind_eq_error, continuing_error]
  constructor
  · rintro (h | ⟨_, -, h⟩)
    · exact h
    · cases h
  · exact .inl

/-- Sort keys are compiled and put behind those of the plan. No sort keys are compiled to none, so
they are no case of their own. -/
theorem orderBy_ok {keys : List OrderKey} (h : planner.orderBy plan keys = .ok plan') :
    ∃ sortKeys t, (planner.scope plan).sortKeys keys plan.session = .ok sortKeys t ∧
      plan' = { plan.withSession t with orderBy := plan.orderBy ++ sortKeys } := by
  unfold orderBy at h
  split at h
  next =>
    cases h
    refine ⟨[], plan.session, rfl, ?_⟩
    rw [List.append_nil]
    rfl
  next =>
    obtain ⟨⟨sortKeys, plan₁⟩, hrun, h⟩ := except_bind_eq_ok.mp h
    obtain ⟨t, hsortKeys, rfl⟩ := continuing_ok.mp hrun
    cases h
    exact ⟨sortKeys, t, hsortKeys, rfl⟩

/-- The step for sort keys fails with the error of their compilation. -/
theorem orderBy_error {keys : List OrderKey} {err : PlanError} :
    planner.orderBy plan keys = .error err ↔
      ∃ t, (planner.scope plan).sortKeys keys plan.session = .error err t := by
  unfold orderBy
  split
  next =>
    constructor
    · intro h
      cases h
    · rintro ⟨t, h⟩
      cases h
  next =>
    rw [except_bind_eq_error, continuing_error]
    constructor
    · rintro (h | ⟨_, -, h⟩)
      · exact h
      · cases h
    · exact .inl

/-- Paging changes the numbers of results and nothing else. -/
theorem paging_ok {top? skip? : Option String} (h : planner.paging plan top? skip? = .ok plan') :
    ∃ first? max?, plan' = { plan with firstResult? := first?, maxResults? := max? } := by
  -- What is left out is read first, and then how many are returned.
  have hskip : ∃ skipped first?, skipped = { plan with firstResult? := first? } ∧
      planner.paging skipped top? none = .ok plan' := by
    cases skip? with
    | none => exact ⟨plan, plan.firstResult?, rfl, h⟩
    | some skip =>
      obtain ⟨first, -, hskipped⟩ := except_bind_eq_ok.mp h
      exact ⟨_, some first, rfl, hskipped⟩
  obtain ⟨skipped, first?, rfl, htop⟩ := hskip
  cases top? with
  | none =>
    cases htop
    exact ⟨first?, plan.maxResults?, rfl⟩
  | some top =>
    obtain ⟨_, hsame, hread⟩ := except_bind_eq_ok.mp htop
    cases hsame
    obtain ⟨max, -, hplan⟩ := except_bind_eq_ok.mp hread
    cases hplan
    exact ⟨first?, some (planner.clamp max), rfl⟩

/-- What a projection makes of a plan, by the options to select and to expand. -/
inductive Projects (planner : Planner) (plan : QueryPlan) :
    Option String → Option String → QueryPlan → Prop
  /-- Without either option it changes nothing. -/
  | nothing : Projects planner plan none none plan
  /-- Every column may be selected. -/
  | all {select : String} (hall : selectsAll (splitPaths select) = true) :
      Projects planner plan (some select) none { plan with projection := .all }
  /-- Properties may be selected. -/
  | columns {select : String} {columns : List Scalar} {joins : JoinPlan}
      (hall : selectsAll (splitPaths select) = false)
      (hcolumns : (planner.scope plan).resolveProperties (splitPaths select) plan.joins =
        .ok columns joins) :
      Projects planner plan (some select) none
        { plan with joins, projection := .columns columns }
  /-- Navigations may be fetched. -/
  | expand {expand : String} {items : List Expansion} {joins : JoinPlan}
      (hitems : (planner.scope plan).expandPaths [] (splitPaths expand) plan.joins =
        .ok items joins) :
      Projects planner plan none (some expand) { plan with joins, projection := .expand items }

/-- A projection makes one of these plans. -/
theorem projection_ok {select? expand? : Option String}
    (h : planner.projection plan select? expand? = .ok plan') :
    planner.Projects plan select? expand? plan' := by
  unfold projection at h
  cases select? with
  | none =>
    cases expand? with
    | none =>
      cases h
      exact .nothing
    | some expand =>
      obtain ⟨⟨items, plan₁⟩, hrun, h⟩ := except_bind_eq_ok.mp h
      obtain ⟨t, hjoins, rfl⟩ := continuing_ok.mp hrun
      obtain ⟨joins, hitems, rfl⟩ := onJoins_eq_ok.mp hjoins
      cases h
      exact .expand hitems
  | some select =>
    cases expand? with
    | some expand => cases h
    | none =>
      dsimp only at h
      split at h
      next hall =>
        cases h
        exact .all hall
      next hall =>
        obtain ⟨⟨columns, plan₁⟩, hrun, h⟩ := except_bind_eq_ok.mp h
        obtain ⟨t, hjoins, rfl⟩ := continuing_ok.mp hrun
        obtain ⟨joins, hcolumns, rfl⟩ := onJoins_eq_ok.mp hjoins
        cases h
        exact .columns (Bool.not_eq_true _ ▸ hall) hcolumns

/-- A plan is assembled by the steps for the filter, the sort keys, the paging and the projection,
in this order, from a plan that is started. -/
theorem assemble_ok {entity : String} {o : QueryOptions}
    (h : planner.assemble entity o = .ok plan') :
    ∃ started filtered ordered paged,
      planner.start entity = .ok started ∧ planner.filter started o.filter = .ok filtered ∧
      planner.orderBy filtered o.orderBy = .ok ordered ∧
      planner.paging ordered o.top o.skip = .ok paged ∧
      planner.projection paged o.select o.expand = .ok plan' := by
  unfold assemble at h
  obtain ⟨started, hstart, h₁⟩ := except_bind_eq_ok.mp h
  obtain ⟨filtered, hfilter, h₂⟩ := except_bind_eq_ok.mp h₁
  obtain ⟨ordered, horder, h₃⟩ := except_bind_eq_ok.mp h₂
  obtain ⟨paged, hpaging, hprojection⟩ := except_bind_eq_ok.mp h₃
  exact ⟨started, filtered, ordered, paged, hstart, hfilter, horder, hpaging, hprojection⟩

/-! ## Any order of steps -/

/-- One more step is taken and succeeds. -/
inductive Step (planner : Planner) (plan plan' : QueryPlan) : Prop
  | filter {e? : Option Expr} (h : planner.filter plan e? = .ok plan')
  | orderBy {keys : List OrderKey} (h : planner.orderBy plan keys = .ok plan')
  | paging {top? skip? : Option String} (h : planner.paging plan top? skip? = .ok plan')
  | projection {select? expand? : Option String}
      (h : planner.projection plan select? expand? = .ok plan')

/-- A plan is reached for an entity type by starting it and taking steps. -/
def Reaches (planner : Planner) (entity : String) (plan : QueryPlan) : Prop :=
  ∃ started, planner.start entity = .ok started ∧ ReflTransGen planner.Step started plan

/-- A plan goes on from another one: it is of the same root, and joins and parameters were added at
most. -/
structure Extends (planner : Planner) (plan plan' : QueryPlan) : Prop where
  /-- The root is the same. -/
  root : plan'.root = plan.root
  /-- The alias of the root is the same. -/
  rootAlias? : plan'.rootAlias? = plan.rootAlias?
  /-- Joins were added. -/
  joins : ReflTransGen (planner.scope plan).Adds plan.joins plan'.joins
  /-- Parameters were added. -/
  parameters : plan.parameters.entries <+: plan'.parameters.entries

/-- A plan goes on to the session that a compilation ends in, whatever is done to its condition, its
sort keys, its paging and its projection. -/
theorem Extends.of_session {t : Session}
    (h : ReflTransGen (Session.Adds (planner.scope plan)) plan.session t)
    (hplan : plan'.root = plan.root ∧ plan'.rootAlias? = plan.rootAlias? ∧
      plan'.joins = t.joins ∧ plan'.parameters = t.parameters) :
    planner.Extends plan plan' := by
  obtain ⟨hroot, hrootAlias, hjoins, hparameters⟩ := hplan
  refine ⟨hroot, hrootAlias, ?_, ?_⟩
  · rw [hjoins]
    exact Session.joins_grow h
  · rw [hparameters]
    exact Binding.entries_grow (Session.binding_grow h)

/-- A plan goes on to joins that were added, whatever is done to its paging and its projection. -/
theorem Extends.of_joins
    (h : ReflTransGen (planner.scope plan).Adds plan.joins plan'.joins)
    (hplan : plan'.root = plan.root ∧ plan'.rootAlias? = plan.rootAlias? ∧
      plan'.parameters = plan.parameters) :
    planner.Extends plan plan' := by
  obtain ⟨hroot, hrootAlias, hparameters⟩ := hplan
  exact ⟨hroot, hrootAlias, h, hparameters ▸ List.prefix_refl _⟩

/-- Every step goes on from the plan before it. -/
theorem Step.extends (h : planner.Step plan plan') : planner.Extends plan plan' := by
  cases h with
  | filter h =>
    rename_i e?
    cases e? with
    | none =>
      rw [filter_none_ok h]
      exact .of_joins .refl ⟨rfl, rfl, rfl⟩
    | some e =>
      obtain ⟨p, t, hcondition, rfl⟩ := filter_some_ok h
      exact .of_session (((planner.scope plan).condition_gathers e).moves.ok hcondition)
        ⟨rfl, rfl, rfl, rfl⟩
  | orderBy h =>
    obtain ⟨sortKeys, t, hsortKeys, rfl⟩ := orderBy_ok h
    exact .of_session (((planner.scope plan).sortKeys_gathers _).moves.ok hsortKeys)
      ⟨rfl, rfl, rfl, rfl⟩
  | paging h =>
    obtain ⟨first?, max?, rfl⟩ := paging_ok h
    exact .of_joins .refl ⟨rfl, rfl, rfl⟩
  | projection h =>
    cases projection_ok h with
    | nothing => exact .of_joins .refl ⟨rfl, rfl, rfl⟩
    | all hall => exact .of_joins .refl ⟨rfl, rfl, rfl⟩
    | columns hall hcolumns =>
      exact .of_joins (((planner.scope plan).resolveProperties_moves _).ok hcolumns)
        ⟨rfl, rfl, rfl⟩
    | expand hitems => exact .of_joins (Scope.expandPaths_grows hitems) ⟨rfl, rfl, rfl⟩

/-- What is assembled is reached. -/
theorem assemble_reaches {entity : String} {o : QueryOptions}
    (h : planner.assemble entity o = .ok plan) : planner.Reaches entity plan := by
  obtain ⟨started, filtered, ordered, paged, hstart, hfilter, horder, hpaging, hprojection⟩ :=
    assemble_ok h
  refine ⟨started, hstart, ?_⟩
  calc ReflTransGen planner.Step started filtered := .single (.filter hfilter)
    ReflTransGen planner.Step _ ordered := .single (.orderBy horder)
    ReflTransGen planner.Step _ paged := .single (.paging hpaging)
    ReflTransGen planner.Step _ plan := .single (.projection hprojection)

/-- A plan that is reached is of the entity type that it was started for and of the alias that the
settings give the root, and its joins are sound. -/
theorem Reaches.sound {entity : String} (h : planner.Reaches entity plan) :
    plan.root = entity ∧ plan.rootAlias? = planner.config.rootAlias? ∧
      (planner.scope plan).Sound plan.joins := by
  obtain ⟨started, hstart, hsteps⟩ := h
  obtain ⟨-, rfl⟩ := start_ok hstart
  induction hsteps with
  | refl => exact ⟨rfl, rfl, Scope.Sound.empty _⟩
  | @tail before after _ hstep ih =>
    obtain ⟨hroot, hrootAlias, hsound⟩ := ih
    have hextends := hstep.extends
    refine ⟨hextends.root.trans hroot, hextends.rootAlias?.trans hrootAlias, ?_⟩
    -- What paths are resolved against depends on the root alone, which no step changes.
    have hscope : planner.scope after = planner.scope before := by
      unfold scope
      rw [hextends.root]
    rw [hscope]
    exact hsound.grows hextends.joins

end Planner

end EntityQuery
