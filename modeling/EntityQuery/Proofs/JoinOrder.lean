import EntityQuery.Model.Table
import EntityQuery.Proofs.Resolutions

/-!
# Joins do not depend on the order of paths

Which joins some paths of navigations leave behind is said here without a look at the order in which
they are resolved. The joined paths are the prefixes that lead somewhere (`mem_paths_joinsAfter`),
and a join is determined by its path: its property is the last segment (`Hangs.path_eq`), it leads
where the model says (`Sound.walk_target`), and its parent is what the path before the last segment
leads to (`Hangs.navigation?_parent`). Two orders therefore leave the same joins behind, up to the
aliases and the order of the joins.

An alias does depend on the order, as soon as two paths are the same text when their segments are
joined: the one that comes later gets a number. Where these texts differ and none is taken by the
root, no number is ever needed, every alias is the plain one of its path (`plain_of_grows`), and two
orders leave the very same joins behind (`joins_of_perm`).
-/

open Relation (ReflTransGen)

namespace EntityQuery

/-- The prefixes of some paths, without the empty one. -/
def prefixes (paths : List (List String)) : List (List String) := paths.flatMap (·.inits.tail)

/-- What a prefix of some paths is. -/
theorem mem_prefixes {paths : List (List String)} {p : List String} :
    p ∈ prefixes paths ↔ ∃ path ∈ paths, p ≠ [] ∧ p <+: path := by
  unfold prefixes
  rw [List.mem_flatMap]
  simp only [mem_tail_inits]

/-- Of the same paths in another order, the prefixes are the same. -/
theorem mem_prefixes_of_perm {paths paths' : List (List String)} (h : paths.Perm paths')
    (p : List String) : p ∈ prefixes paths ↔ p ∈ prefixes paths' :=
  (h.flatMap_right _).mem_iff

/-- After joins were added for some paths, a path is joined when it was before or is one of them. -/
theorem JoinPlan.Gains.mem_paths {plan plan' : JoinPlan} {ps : List (List String)}
    (h : Gains ps plan plan') (p : List String) : p ∈ plan'.paths ↔ p ∈ plan.paths ∨ p ∈ ps := by
  rw [h.paths_eq, List.mem_append, JoinPlan.missing, List.mem_filter, JoinPlan.isNone_get?_iff]
  tauto

namespace Scope

variable {s : Scope} {plan plan' : JoinPlan}

/-! ## Joins and their paths -/

/-- The paths that are joined after some navigations are resolved: the prefixes of these that lead
somewhere. -/
theorem mem_paths_joinsAfter (s : Scope) (paths : List (List String)) (p : List String) :
    p ∈ (s.joinsAfter (paths.map .navigations)).paths ↔
      p ∈ prefixes paths ∧ ∃ entity, s.metadata.Leads s.root p entity := by
  -- The resolution that is taken off is the last one, since the joins are carried from the left.
  induction paths using List.reverseRecOn with
  | nil => exact iff_of_false List.not_mem_nil fun h => List.not_mem_nil h.1
  | append_singleton paths path ih =>
    have hgains := gains_resolve path (s.sound_joinsAfter (paths.map .navigations))
    have hlast : s.joinsAfter ((paths ++ [path]).map .navigations) =
        finalState (s.resolve path (s.joinsAfter (paths.map .navigations))) := by
      unfold joinsAfter
      rw [List.map_append, List.foldl_append]
      rfl
    rw [hlast, hgains.mem_paths, ih, mem_tail_inits, Metadata.isPrefix_navigable_iff]
    simp only [mem_prefixes, List.mem_append, List.mem_singleton]
    constructor
    · rintro (⟨⟨q, hq, hp⟩, hleads⟩ | ⟨hne, hpre, hleads⟩)
      · exact ⟨⟨q, .inl hq, hp⟩, hleads⟩
      · exact ⟨⟨path, .inr rfl, hne, hpre⟩, hleads⟩
    · rintro ⟨⟨q, hq | rfl, hp⟩, hleads⟩
      · exact .inl ⟨⟨q, hq, hp⟩, hleads⟩
      · exact .inr ⟨hp.1, hp.2, hleads⟩

/-- The last segment of the path of a join is its property. -/
theorem Hangs.path_eq {earlier : List Join} {step : Join} (h : s.Hangs earlier step) :
    step.path = step.path.dropLast ++ [step.property] := by
  cases h with
  | onRoot path => rw [path]; rfl
  | onJoin _ _ path => rw [path, List.dropLast_concat]

/-- The parent of a join qualifies the columns of the path before the last segment. -/
theorem Hangs.navigation?_parent {earlier : List Join} {step : Join} (h : s.Hangs earlier step)
    (hplan : s.Sound plan) (hearlier : earlier ⊆ plan.steps) :
    plan.navigation? s.config.rootAlias? step.parent? = some step.path.dropLast := by
  cases h with
  | onRoot path parent =>
    rw [parent, path]
    exact hplan.navigation?_place (s.place?_nil plan)
  | @onJoin parentStep hmem hne path parent =>
    rw [parent, path, List.dropLast_concat]
    have hget : plan.get? parentStep.path = some parentStep :=
      (get?_iff_of_nodup hplan.paths_nodup _ _).mpr ⟨hearlier hmem, rfl⟩
    exact hplan.navigation?_place (place?_of_get? hne hget)

/-- Every join that resolutions leave behind hangs on some of them. -/
theorem exists_hangs {s : Scope} {resolutions : List Resolution} {step : Join}
    (hmem : step ∈ (s.joinsAfter resolutions).steps) :
    ∃ earlier, earlier ⊆ (s.joinsAfter resolutions).steps ∧ s.Hangs earlier step := by
  obtain ⟨earlier, later, hsteps⟩ := List.append_of_mem hmem
  refine ⟨earlier, ?_, hangs_of_grows (s.joinsAfter_grows resolutions) _ _ _ hsteps⟩
  rw [hsteps]
  exact List.subset_append_left _ _

/-! ## Plain aliases -/

/-- The alias of a path without a number. -/
def plainAlias (s : Scope) (path : List String) : String :=
  String.intercalate "_" path ++ s.config.aliasSuffix

/-- Joins under the plain aliases of their paths. -/
def IsPlain (s : Scope) (steps : List Join) : Prop :=
  ∀ step ∈ steps, step.aliasName = s.plainAlias step.path

/-- The alias of a new join is the plain one of its path when that is free. -/
theorem freshAlias_eq_plainAlias {path : List String}
    (h : s.isAliasTaken plan (s.plainAlias path) = false) :
    s.freshAlias plan path = s.plainAlias path := by
  have hfirst : s.aliasCandidate path 0 = s.plainAlias path := rfl
  unfold freshAlias firstFree
  rw [hfirst, h, if_neg Bool.false_ne_true, hfirst]

/-- Where the joined segments of the paths differ and none of the plain aliases is the root's, every
join has the plain alias of its path. -/
theorem plain_of_grows (h : ReflTransGen s.Adds .empty plan)
    (hdistinct : ∀ p ∈ plan.paths, ∀ q ∈ plan.paths,
      String.intercalate "_" p = String.intercalate "_" q → p = q)
    (hroot : ∀ p ∈ plan.paths, s.config.rootAlias? ≠ some (s.plainAlias p)) :
    s.IsPlain plan.steps := by
  induction h with
  | refl => exact fun _ hmem => (List.not_mem_nil hmem).elim
  | @tail before _ _ hadds ih =>
    obtain @⟨path, place, segment, target, -, hnew, -⟩ := hadds
    let step := s.newJoin before path place segment target
    have hbefore : before.paths ⊆ (before.push step).paths := by
      rw [JoinPlan.paths_push]
      exact List.subset_append_left _ _
    have hlast : path ++ [segment] ∈ (before.push step).paths := by
      rw [JoinPlan.paths_push]
      exact List.mem_append_right _ (List.mem_singleton_self _)
    have hplain := ih (fun p hp q hq => hdistinct p (hbefore hp) q (hbefore hq))
      fun p hp => hroot p (hbefore hp)
    -- No earlier join has the plain alias of the new path, since their joined segments differ.
    have hfree : s.isAliasTaken before (s.plainAlias (path ++ [segment])) = false := by
      unfold isAliasTaken
      rw [Bool.or_eq_false_iff]
      refine ⟨beq_eq_false_iff_ne.mpr (hroot _ hlast), ?_⟩
      rw [← Bool.not_eq_true, List.contains_iff_mem]
      intro htaken
      obtain ⟨other, hother, heq⟩ := List.mem_map.mp htaken
      have hmem : other.path ∈ before.paths := List.mem_map_of_mem hother
      rw [hplain other hother] at heq
      have hjoined := (String.append_left_inj s.config.aliasSuffix).mp heq
      have hsame := hdistinct _ (hbefore hmem) _ hlast hjoined
      exact JoinPlan.get?_eq_none.mp hnew (hsame ▸ hmem)
    intro other hmem
    rcases List.mem_append.mp hmem with hmem | hmem
    · exact hplain other hmem
    · rw [List.mem_singleton.mp hmem]
      exact freshAlias_eq_plainAlias hfree

/-- Over joins under plain aliases, the path of a join says what its parent is. -/
theorem Hangs.parent?_eq {earlier : List Join} {step : Join} (h : s.Hangs earlier step)
    (hplain : s.IsPlain earlier) :
    step.parent? = if step.path.dropLast = [] then s.config.rootAlias?
      else some (s.plainAlias step.path.dropLast) := by
  cases h with
  | onRoot path parent =>
    rw [parent, path]
    rfl
  | onJoin hmem hne path parent =>
    rw [parent, path, List.dropLast_concat, if_neg hne, hplain _ hmem]

/-! ## Two orders -/

section

variable {rs rs' : List Resolution} {step step' : Join}

/-- Joins of one path, left behind by two sequences of resolutions, have the same property and the
same target. -/
theorem same_navigation (hmem : step ∈ (s.joinsAfter rs).steps)
    (hmem' : step' ∈ (s.joinsAfter rs').steps) (hpath : step.path = step'.path) :
    step.property = step'.property ∧ step.target = step'.target := by
  obtain ⟨_, -, hhangs⟩ := exists_hangs hmem
  obtain ⟨_, -, hhangs'⟩ := exists_hangs hmem'
  constructor
  · have hlast := hhangs.path_eq
    rw [hpath] at hlast
    have hsame := List.append_cancel_left (hlast.symm.trans hhangs'.path_eq)
    exact List.singleton_inj.mp hsame
  · have htarget := (s.sound_joinsAfter rs).walk_target step hmem
    rw [hpath, (s.sound_joinsAfter rs').walk_target step' hmem'] at htarget
    exact (Option.some.inj htarget).symm

/-- Joins of one path, left behind under plain aliases by two sequences of resolutions, are the
same. -/
theorem same_join (hplain : s.IsPlain (s.joinsAfter rs).steps)
    (hplain' : s.IsPlain (s.joinsAfter rs').steps) (hmem : step ∈ (s.joinsAfter rs).steps)
    (hmem' : step' ∈ (s.joinsAfter rs').steps) (hpath : step.path = step'.path) :
    step = step' := by
  obtain ⟨hproperty, htarget⟩ := same_navigation hmem hmem' hpath
  obtain ⟨earlier, hearlier, hhangs⟩ := exists_hangs hmem
  obtain ⟨earlier', hearlier', hhangs'⟩ := exists_hangs hmem'
  have hparent : step.parent? = step'.parent? := by
    rw [hhangs.parent?_eq fun other hother => hplain other (hearlier hother),
      hhangs'.parent?_eq fun other hother => hplain' other (hearlier' hother), hpath]
  have halias : step.aliasName = step'.aliasName := by
    rw [hplain step hmem, hplain' step' hmem', hpath]
  cases step
  cases step'
  cases hpath
  cases hproperty
  cases htarget
  cases hparent
  cases halias
  rfl

/-- Under plain aliases, sequences of resolutions that join the same paths leave the same joins
behind. -/
theorem steps_perm (hplain : s.IsPlain (s.joinsAfter rs).steps)
    (hplain' : s.IsPlain (s.joinsAfter rs').steps)
    (hpaths : ∀ p, p ∈ (s.joinsAfter rs).paths ↔ p ∈ (s.joinsAfter rs').paths) :
    (s.joinsAfter rs).steps.Perm (s.joinsAfter rs').steps := by
  have hnodup := (s.sound_joinsAfter rs).paths_nodup.of_map
  have hnodup' := (s.sound_joinsAfter rs').paths_nodup.of_map
  rw [List.perm_ext_iff_of_nodup hnodup hnodup']
  intro step
  constructor
  · intro hmem
    obtain ⟨step', hmem', hpath⟩ := List.mem_map.mp ((hpaths _).mp (List.mem_map_of_mem hmem))
    exact same_join hplain hplain' hmem hmem' hpath.symm ▸ hmem'
  · intro hmem
    obtain ⟨step', hmem', hpath⟩ := List.mem_map.mp ((hpaths _).mpr (List.mem_map_of_mem hmem))
    exact same_join hplain' hplain hmem hmem' hpath.symm ▸ hmem'

end

/-- Navigations that are resolved in another order leave the same paths joined, which are the
prefixes that lead somewhere. Two joins of one path have the same property and the same target, and
the parent of each is what the path before its last segment leads to. If the joined segments of the
prefixes differ, and none of them with the suffix is the alias of the root, the joins are the very
same, each under its joined segments with the suffix. -/
theorem joins_of_perm {s : Scope} {paths paths' : List (List String)} (h : paths.Perm paths') :
    let plan := s.joinsAfter (paths.map .navigations)
    let plan' := s.joinsAfter (paths'.map .navigations)
    plan.paths.Perm plan'.paths ∧ plan.paths.Nodup ∧
    (∀ p, p ∈ plan.paths ↔ p ∈ prefixes paths ∧ ∃ entity, s.metadata.Leads s.root p entity) ∧
    (∀ step ∈ plan.steps, ∀ step' ∈ plan'.steps, step.path = step'.path →
      step.property = step'.property ∧ step.target = step'.target ∧
      plan.navigation? s.config.rootAlias? step.parent? = some step.path.dropLast ∧
      plan'.navigation? s.config.rootAlias? step'.parent? = some step.path.dropLast) ∧
    ((∀ p ∈ prefixes paths, ∀ q ∈ prefixes paths,
        String.intercalate "_" p = String.intercalate "_" q → p = q) →
      (∀ p ∈ prefixes paths,
        s.config.rootAlias? ≠ some (String.intercalate "_" p ++ s.config.aliasSuffix)) →
      plan.steps.Perm plan'.steps ∧
      ∀ step ∈ plan.steps,
        step.aliasName = String.intercalate "_" step.path ++ s.config.aliasSuffix) := by
  intro plan plan'
  have hplan : s.Sound plan := s.sound_joinsAfter _
  have hplan' : s.Sound plan' := s.sound_joinsAfter _
  have hmem := s.mem_paths_joinsAfter paths
  have hmem' : ∀ p, p ∈ plan.paths ↔ p ∈ plan'.paths := by
    intro p
    rw [hmem, s.mem_paths_joinsAfter paths', mem_prefixes_of_perm h]
  refine ⟨(List.perm_ext_iff_of_nodup hplan.paths_nodup hplan'.paths_nodup).mpr hmem',
    hplan.paths_nodup, hmem, ?_, ?_⟩
  · intro step hstep step' hstep' hpath
    obtain ⟨hproperty, htarget⟩ := same_navigation hstep hstep' hpath
    obtain ⟨_, hearlier, hhangs⟩ := exists_hangs hstep
    obtain ⟨_, hearlier', hhangs'⟩ := exists_hangs hstep'
    refine ⟨hproperty, htarget, hhangs.navigation?_parent hplan hearlier, ?_⟩
    rw [hpath]
    exact hhangs'.navigation?_parent hplan' hearlier'
  · intro hdistinct hroot
    have hamong : ∀ p ∈ plan.paths, p ∈ prefixes paths := fun p hp => ((hmem p).mp hp).1
    have hamong' : ∀ p ∈ plan'.paths, p ∈ prefixes paths :=
      fun p hp => hamong p ((hmem' p).mpr hp)
    have hplain : s.IsPlain plan.steps := plain_of_grows (s.joinsAfter_grows _)
      (fun p hp q hq => hdistinct p (hamong p hp) q (hamong q hq))
      fun p hp => hroot p (hamong p hp)
    have hplain' : s.IsPlain plan'.steps := plain_of_grows (s.joinsAfter_grows _)
      (fun p hp q hq => hdistinct p (hamong' p hp) q (hamong' q hq))
      fun p hp => hroot p (hamong' p hp)
    exact ⟨steps_perm hplain hplain' hmem', hplain⟩

/-- Letters between persons, who live somewhere. -/
def letters : Scope where
  metadata := ModelTable.metadata
    { entities := ["Letter", "Person", "Place"]
      navigations :=
        [⟨"Letter", "sender", some "Person"⟩, ⟨"Letter", "receiver", some "Person"⟩,
          ⟨"Person", "home", some "Place"⟩]
      scalars := []
      foreignKeys := [] }
  root := "Letter"
  config := .default

/-- Whether the home of the sender or the receiver of a letter comes first, the joins are the same,
in another order. -/
theorem letters_joins_of_swap :
    let plan := letters.joinsAfter [.navigations ["sender", "home"], .navigations ["receiver"]]
    let plan' := letters.joinsAfter [.navigations ["receiver"], .navigations ["sender", "home"]]
    plan.paths = [["sender"], ["sender", "home"], ["receiver"]] ∧
    plan'.paths = [["receiver"], ["sender"], ["sender", "home"]] ∧
    plan.steps.Perm plan'.steps ∧
    ∀ step ∈ plan.steps, step.aliasName = String.intercalate "_" step.path ++ "_alias" := by
  obtain ⟨-, -, -, -, hsame⟩ :=
    joins_of_perm (s := letters) (List.Perm.swap ["receiver"] ["sender", "home"] [])
  exact ⟨by decide +kernel, by decide +kernel, hsame (by decide +kernel) (by decide +kernel)⟩

end Scope

end EntityQuery
