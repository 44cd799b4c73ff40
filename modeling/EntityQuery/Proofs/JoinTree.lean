import EntityQuery.Proofs.Aliases
import Mathlib.Data.List.Induction

/-!
# The tree of joins

Joins form a tree over the root: `Hangs` says that a join stands on the root or on a join before it,
that its path goes one navigation further, and that the model has this navigation. `IsTree` adds to
it that paths and aliases tell joins apart and that a path is looked up at its own join. What a join
hangs on is there when it is added (`hangs_newJoin`), and joins that come later do not matter, so
along every walk from no joins on each join hangs (`hangs_of_grows`).

A resolution is such a walk also when it fails half way. `joinsAfter` runs resolutions of either
kind one after the other, whatever they come to, and what they leave behind is a tree
(`joinsAfter_isTree`).
-/

open Relation (ReflTransGen)

namespace EntityQuery

/-- A navigation leads somewhere when the property is one and its target is known. -/
theorem Metadata.step?_eq_some {m : Metadata} {entity segment target : String} :
    m.step? entity segment = some target ↔
      m.isNavigation entity segment = true ∧ m.target? entity segment = some target := by
  unfold step?
  split
  next h => simp [h]
  next h => simp [h]

namespace Scope

variable {s : Scope} {plan plan' : JoinPlan}

/-! ## Trees -/

/-- A join stands on the root or on an earlier join, whose path it continues by its property, and
the property is a navigation from there to its target. -/
inductive Hangs (s : Scope) (earlier : List Join) (step : Join) : Prop
  /-- A path of one segment begins at the root. -/
  | onRoot (path : step.path = [step.property]) (parent : step.parent? = s.config.rootAlias?)
      (navigation : s.metadata.isNavigation s.root step.property = true)
      (target : s.metadata.target? s.root step.property = some step.target)
  /-- A longer path goes on from the join of the path before its last segment. -/
  | onJoin {parentStep : Join} (earlier : parentStep ∈ earlier) (nonempty : parentStep.path ≠ [])
      (path : step.path = parentStep.path ++ [step.property])
      (parent : step.parent? = some parentStep.aliasName)
      (navigation : s.metadata.isNavigation parentStep.target step.property = true)
      (target : s.metadata.target? parentStep.target step.property = some step.target)

/-- Joins form a tree over the root in which paths and aliases tell them apart. -/
structure IsTree (s : Scope) (plan : JoinPlan) : Prop where
  /-- The root has no join. -/
  path_ne_nil : ∀ step ∈ plan.steps, step.path ≠ []
  /-- Every path has one join. -/
  paths_nodup : plan.paths.Nodup
  /-- A path is looked up at its own join, and a path without a join nowhere. -/
  get?_iff : ∀ path step, plan.get? path = some step ↔ step ∈ plan.steps ∧ step.path = path
  /-- Every alias has one join. -/
  aliases_nodup : plan.aliases.Nodup
  /-- The root's alias has none. -/
  root_not_mem : ∀ step ∈ plan.steps, s.config.rootAlias? ≠ some step.aliasName
  /-- A join hangs on the root or on a join before it. -/
  hangs : ∀ earlier step later, plan.steps = earlier ++ step :: later → s.Hangs earlier step

/-- A join that is added from the place of a path hangs on what is there already. -/
theorem hangs_newJoin {path : List String} {place : Place} {segment target : String}
    (hplace : s.place? plan path = some place)
    (hstep : s.metadata.step? place.entity segment = some target) :
    s.Hangs plan.steps (s.newJoin plan path place segment target) := by
  obtain ⟨hnavigation, htarget⟩ := Metadata.step?_eq_some.mp hstep
  unfold place? at hplace
  split at hplace
  next hroot =>
    cases hplace
    subst hroot
    exact .onRoot rfl rfl hnavigation htarget
  next hroot =>
    obtain ⟨parentStep, hget, rfl⟩ := Option.map_eq_some_iff.mp hplace
    obtain ⟨hmem, rfl⟩ := JoinPlan.get?_eq_some hget
    exact .onJoin hmem hroot rfl rfl hnavigation htarget

/-- Looking a path up among joins with distinct paths finds the join that has it. -/
theorem get?_iff_of_nodup (h : plan.paths.Nodup) (path : List String) (step : Join) :
    plan.get? path = some step ↔ step ∈ plan.steps ∧ step.path = path := by
  constructor
  · exact JoinPlan.get?_eq_some
  · rintro ⟨hmem, rfl⟩
    exact find?_key_eq_some Join.path h hmem

/-- Sound joins of which each hangs on an earlier one form a tree. -/
theorem Sound.isTree (h : s.Sound plan)
    (hhangs : ∀ earlier step later, plan.steps = earlier ++ step :: later →
      s.Hangs earlier step) : s.IsTree plan where
  path_ne_nil _ hmem hnil := h.nil_not_mem (hnil ▸ List.mem_map_of_mem hmem)
  paths_nodup := h.paths_nodup
  get?_iff := get?_iff_of_nodup h.paths_nodup
  aliases_nodup := h.aliases_nodup
  root_not_mem step hmem := h.root_not_mem step.aliasName (List.mem_map_of_mem hmem)
  hangs := hhangs

/-- Along a walk from none on, each join hangs on the root or on a join before it. -/
theorem hangs_of_grows (h : ReflTransGen s.Adds .empty plan) (earlier : List Join) (step : Join)
    (later : List Join) (hsteps : plan.steps = earlier ++ step :: later) :
    s.Hangs earlier step := by
  induction h generalizing later with
  | refl =>
    have hempty : [] = earlier ++ step :: later := hsteps
    simp at hempty
  | @tail before _ _ hadds ih =>
    obtain @⟨path, place, segment, target, hplace, -, hstep⟩ := hadds
    have hpush : before.steps ++ [s.newJoin before path place segment target] =
        earlier ++ step :: later := hsteps
    -- The join is the one that was added last, or was there before.
    rcases List.eq_nil_or_concat later with rfl | ⟨later, last, rfl⟩
    · obtain ⟨rfl, hnew⟩ := List.append_inj' hpush rfl
      rw [List.singleton_inj] at hnew
      exact hnew ▸ hangs_newJoin hplace hstep
    · rw [List.concat_eq_append, ← List.cons_append, ← List.append_assoc] at hpush
      exact ih later (List.append_inj' hpush rfl).1

/-! ## Sequences of resolutions -/

/-- A path that is to be resolved. -/
inductive Resolution
  /-- As navigations. -/
  | navigations (path : List String)
  /-- As navigations and a last property. -/
  | property (path : List String)

/-- The joins that a resolution leaves behind, whether it succeeds or fails. -/
def Resolution.after (s : Scope) (plan : JoinPlan) : Resolution → JoinPlan
  | navigations path => finalState (s.resolve path plan)
  | property path => finalState (s.resolveProperty path plan)

/-- The joins that resolutions leave behind, one after the other from none on. -/
def joinsAfter (s : Scope) (resolutions : List Resolution) : JoinPlan :=
  resolutions.foldl (Resolution.after s) .empty

/-- A resolution walks from the joins before it to those after it. -/
theorem Resolution.grows (s : Scope) (plan : JoinPlan) (r : Resolution) :
    ReflTransGen s.Adds plan (r.after s plan) := by
  cases r with
  | navigations path => exact s.resolve_moves path plan
  | property path => exact s.resolveProperty_moves path plan

/-- Resolutions walk from no joins to those that they leave behind. -/
theorem joinsAfter_grows (s : Scope) (resolutions : List Resolution) :
    ReflTransGen s.Adds .empty (s.joinsAfter resolutions) := by
  -- The joins are carried from the left, so the resolution that is taken off is the last one.
  induction resolutions using List.reverseRecOn with
  | nil => exact ReflTransGen.refl
  | append_singleton resolutions r ih =>
    unfold joinsAfter at ih ⊢
    rw [List.foldl_append]
    exact ih.trans (r.grows s _)

/-- Whatever is resolved from no joins on, and whether it succeeds or fails, the joins form a
tree. -/
theorem joinsAfter_isTree (s : Scope) (resolutions : List Resolution) :
    s.IsTree (s.joinsAfter resolutions) := by
  have hgrows := s.joinsAfter_grows resolutions
  exact ((Sound.empty s).grows hgrows).isTree (hangs_of_grows hgrows)

end Scope

end EntityQuery
