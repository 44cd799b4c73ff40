import EntityQuery.Proofs.JoinTree
import Mathlib.Data.List.Infix

/-!
# What resolving a path comes to

The model alone says where navigations lead (`Metadata.Leads`) and how far it knows a path
(`Metadata.navigable`). A resolution goes over the joins of earlier ones where it can, and asks the
model where it cannot. Over sound joins the two agree (`Sound.step?_of_get?`), so a segment is
followed exactly when it is a navigation of the place that was reached, and then its path has a
join (`follow_of_sound`). All else follows by induction along the path: what is followed is what the
model knows (`followAll_of_sound`), and joins are added for the beginnings of that part which had
none, the shorter ones first (`gains_followAll`).

`JoinPlan.Gains` says which joins are added. It is kept by sequences (`Gains.trans`).
-/

open Relation (ReflTransGen)

namespace EntityQuery

/-- The prefixes of a list, without the empty one. -/
theorem mem_tail_inits {α : Type} {p l : List α} : p ∈ l.inits.tail ↔ p ≠ [] ∧ p <+: l := by
  cases l with
  | nil => simp
  | cons a l =>
    rw [List.inits_cons, List.tail_cons, List.mem_map]
    constructor
    · rintro ⟨rest, hrest, rfl⟩
      exact ⟨List.cons_ne_nil a rest,
        List.cons_prefix_cons.mpr ⟨rfl, (List.mem_inits rest l).mp hrest⟩⟩
    · rintro ⟨hne, hpre⟩
      obtain ⟨first, rest, rfl⟩ := List.exists_cons_of_ne_nil hne
      obtain ⟨rfl, hrest⟩ := List.cons_prefix_cons.mp hpre
      exact ⟨rest, (List.mem_inits rest l).mpr hrest, rfl⟩

/-! ## Navigations of a model -/

namespace Metadata

variable {m : Metadata} {entity target : String} {path : List String}

/-- Navigations lead from an entity type to another one when each of them is, in turn, a navigation
with a known target of the entity type that the ones before it have led to. -/
inductive Leads (m : Metadata) : String → List String → String → Prop
  | stay (entity : String) : Leads m entity [] entity
  | go {entity segment next target : String} {segments : List String}
      (navigation : m.isNavigation entity segment = true)
      (known : m.target? entity segment = some next) (rest : Leads m next segments target) :
      Leads m entity (segment :: segments) target

/-- Navigations lead to where the walk along them ends. -/
theorem leads_iff_walk? : m.Leads entity path target ↔ m.walk? entity path = some target := by
  induction path generalizing entity with
  | nil =>
    constructor
    · rintro ⟨⟩
      rfl
    · intro h
      cases h
      exact .stay _
  | cons segment segments ih =>
    unfold walk?
    rw [Option.bind_eq_some_iff]
    constructor
    · rintro (_ | @⟨_, _, next, _, _, hnavigation, hknown, hrest⟩)
      exact ⟨next, step?_eq_some.mpr ⟨hnavigation, hknown⟩, ih.mp hrest⟩
    · rintro ⟨next, hstep, hrest⟩
      obtain ⟨hnavigation, hknown⟩ := step?_eq_some.mp hstep
      exact .go hnavigation hknown (ih.mpr hrest)

/-- The longest beginning of some segments that leads from an entity type somewhere. -/
def navigable (m : Metadata) : String → List String → List String
  | _, [] => []
  | entity, segment :: segments =>
    match m.step? entity segment with
    | some target => segment :: m.navigable target segments
    | none => []

/-- What lies before the first segment that is no navigation is what leads somewhere. -/
theorem isPrefix_navigable_iff {q : List String} :
    q <+: m.navigable entity path ↔ q <+: path ∧ ∃ target, m.Leads entity q target := by
  induction path generalizing entity q with
  | nil =>
    unfold navigable
    rw [List.prefix_nil]
    constructor
    · rintro rfl
      exact ⟨rfl, entity, .stay entity⟩
    · exact And.left
  | cons segment segments ih =>
    -- Of the empty beginning there is nothing to show.
    cases q with
    | nil => exact iff_of_true List.nil_prefix ⟨List.nil_prefix, entity, .stay entity⟩
    | cons first rest =>
      simp only [leads_iff_walk?] at ih ⊢
      unfold navigable walk?
      rw [List.cons_prefix_cons]
      cases hstep : m.step? entity segment with
      | none =>
        simp only [List.prefix_nil, List.cons_ne_nil, false_iff, not_and, not_exists]
        rintro ⟨rfl, -⟩ target
        rw [hstep, Option.bind_none]
        exact (Option.some_ne_none target).symm
      | some next =>
        simp only [List.cons_prefix_cons, ih, and_assoc]
        apply and_congr_right
        rintro rfl
        rw [hstep]
        rfl

/-- Segments that lead somewhere are known to the end. -/
theorem navigable_eq_self (h : m.Leads entity path target) : m.navigable entity path = path := by
  have hprefix : path <+: m.navigable entity path :=
    isPrefix_navigable_iff.mpr ⟨List.prefix_refl path, target, h⟩
  have hback := (isPrefix_navigable_iff.mp (List.prefix_refl (m.navigable entity path))).1
  exact hback.eq_of_length_le hprefix.length_le

end Metadata

/-! ## Added joins -/

namespace JoinPlan

variable {plan plan' plan'' : JoinPlan} {ps qs : List (List String)}

/-- The paths without a join, of some paths. -/
def missing (plan : JoinPlan) (ps : List (List String)) : List (List String) :=
  ps.filter fun p => (plan.get? p).isNone

/-- From one plan to another, joins are appended for those of some paths that have none, in the
order of these paths. -/
def Gains (ps : List (List String)) (plan plan' : JoinPlan) : Prop :=
  ∃ added, plan'.steps = plan.steps ++ added ∧ added.map (·.path) = plan.missing ps

/-- A path is missing when it is none of the joined ones. -/
theorem isNone_get?_iff {path : List String} :
    (plan.get? path).isNone = true ↔ path ∉ plan.paths := by
  rw [Option.isNone_iff_eq_none, get?_eq_none]

/-- No joins are missing for paths that have them. -/
theorem missing_eq_nil (h : ∀ p ∈ ps, p ∈ plan.paths) : plan.missing ps = [] := by
  unfold missing
  rw [List.filter_eq_nil_iff]
  intro p hp hmissing
  exact isNone_get?_iff.mp hmissing (h p hp)

/-- Where joins are there already, none are appended. -/
theorem gains_self (h : ∀ p ∈ ps, p ∈ plan.paths) : Gains ps plan plan :=
  ⟨[], (List.append_nil _).symm, (missing_eq_nil h).symm⟩

/-- A join is appended for its path. -/
theorem gains_push {step : Join} (h : plan.get? step.path = none) :
    Gains [step.path] plan (plan.push step) := by
  refine ⟨[step], rfl, ?_⟩
  simp [missing, h]

namespace Gains

/-- The paths that are joined afterwards. -/
theorem paths_eq (h : Gains ps plan plan') :
    plan'.paths = plan.paths ++ plan.missing ps := by
  obtain ⟨added, hsteps, hpaths⟩ := h
  unfold paths
  rw [hsteps, List.map_append, hpaths]

/-- One after the other, joins are appended for both rows of paths, when they have none in
common. -/
theorem trans (h : Gains ps plan plan') (h' : Gains qs plan' plan'') (hdisjoint : ps.Disjoint qs) :
    Gains (ps ++ qs) plan plan'' := by
  have hpaths := h.paths_eq
  obtain ⟨added, hsteps, hadded⟩ := h
  obtain ⟨added', hsteps', hadded'⟩ := h'
  refine ⟨added ++ added', by rw [hsteps', hsteps, List.append_assoc], ?_⟩
  -- What was appended for the first row is none of the second one.
  have hsame : plan'.missing qs = plan.missing qs := by
    apply List.filter_congr
    intro q hq
    have hnot : q ∉ plan.missing ps := fun hp => hdisjoint (List.mem_of_mem_filter hp) hq
    rw [Bool.eq_iff_iff, isNone_get?_iff, isNone_get?_iff, hpaths, List.mem_append,
      or_iff_left hnot]
  rw [List.map_append, hadded, hadded', hsame]
  exact (List.filter_append ..).symm

/-- When all paths have joins, nothing changes. -/
theorem eq_of_subset (h : Gains ps plan plan') (hps : ∀ p ∈ ps, p ∈ plan.paths) :
    plan' = plan := by
  obtain ⟨added, hsteps, hadded⟩ := h
  rw [missing_eq_nil hps, List.map_eq_nil_iff] at hadded
  rw [hadded, List.append_nil] at hsteps
  exact congrArg JoinPlan.mk hsteps

end Gains

end JoinPlan

namespace Scope

variable {s : Scope} {plan plan' : JoinPlan}

/-! ## One navigation -/

/-- A join leads where the model says that its last segment leads, from the place before it. -/
theorem Sound.step?_of_get? (h : s.Sound plan) {done : List String} {place : Place}
    {segment : String} {step : Join} (hplace : s.place? plan done = some place)
    (hget : plan.get? (done ++ [segment]) = some step) :
    s.metadata.step? place.entity segment = some step.target := by
  obtain ⟨hmem, hpath⟩ := JoinPlan.get?_eq_some hget
  have hwalk := h.walk_target step hmem
  rw [hpath, Metadata.walk?_concat, h.walk_place hplace] at hwalk
  exact hwalk

/-- Over sound joins, a segment that the model knows as a navigation is followed to its target, and
its path has a join then; another segment is refused and changes nothing. -/
theorem follow_of_sound {done : List String} {place : Place} (hplan : s.Sound plan)
    (hplace : s.place? plan done = some place) (segment : String) :
    (∃ place' plan', s.metadata.step? place.entity segment = some place'.entity ∧
      s.follow done place segment plan = .ok place' plan' ∧ s.Sound plan' ∧
      s.place? plan' (done ++ [segment]) = some place' ∧
      JoinPlan.Gains [done ++ [segment]] plan plan') ∨
    (s.metadata.step? place.entity segment = none ∧
      s.follow done place segment plan =
        .error (.unknownNavigation place.entity segment) plan) := by
  have hsound := hplan.grows (follow_grows hplace segment)
  rcases s.follow_cases done place segment plan with
    ⟨step, hget, h⟩ | ⟨-, hnone, h⟩ | ⟨target, hget, hstep, h⟩
  · -- An earlier path has left the join behind.
    rw [h] at hsound
    refine .inl ⟨_, plan, hplan.step?_of_get? hplace hget, h, hsound, (follow_ok h).1, ?_⟩
    obtain ⟨hmem, hpath⟩ := JoinPlan.get?_eq_some hget
    apply JoinPlan.gains_self
    intro p hp
    rw [List.mem_singleton.mp hp, ← hpath]
    exact List.mem_map_of_mem hmem
  · exact .inr ⟨hnone, h⟩
  · rw [h] at hsound
    exact .inl ⟨_, _, hstep, h, hsound, (follow_ok h).1, JoinPlan.gains_push hget⟩

/-! ## Navigations -/

/-- Over sound joins, navigations that the model knows are followed to where they lead. Others fail
at the first one that it does not know, on the entity type that was reached. -/
theorem followAll_of_sound {segments done : List String} {place : Place} (hplan : s.Sound plan)
    (hplace : s.place? plan done = some place) :
    (∃ place' plan', s.metadata.walk? place.entity segments = some place'.entity ∧
      s.followAll done place segments plan = .ok place' plan') ∨
    (∃ segment rest entity plan',
      segments = s.metadata.navigable place.entity segments ++ segment :: rest ∧
      s.metadata.walk? place.entity (s.metadata.navigable place.entity segments) = some entity ∧
      s.metadata.step? entity segment = none ∧
      s.followAll done place segments plan =
        .error (.unknownNavigation entity segment) plan') := by
  induction segments generalizing done place plan with
  | nil => exact .inl ⟨place, plan, rfl, rfl⟩
  | cons segment segments ih =>
    unfold followAll Metadata.navigable
    rcases follow_of_sound hplan hplace segment with
      ⟨place₁, plan₁, hstep, hfollow, hplan₁, hplace₁, -⟩ | ⟨hnone, hfollow⟩
    · -- What the others come to, they come to from the place that the first one has led to.
      rw [hstep]
      rcases ih hplan₁ hplace₁ with
        ⟨place', plan', hwalk, hall⟩ |
        ⟨offending, rest, entity, plan', hsplit, hwalk, hunknown, hall⟩
      · refine .inl ⟨place', plan', ?_, bind_eq_ok.mpr ⟨place₁, plan₁, hfollow, hall⟩⟩
        rw [Metadata.walk?, hstep]
        exact hwalk
      · refine .inr ⟨offending, rest, entity, plan', congrArg (segment :: ·) hsplit, ?_, hunknown,
          bind_eq_error.mpr (.inr ⟨place₁, plan₁, hfollow, hall⟩)⟩
        rw [Metadata.walk?, hstep]
        exact hwalk
    · rw [hnone]
      exact .inr ⟨segment, segments, place.entity, plan, rfl, rfl, hnone,
        bind_eq_error.mpr (.inl hfollow)⟩

/-- The beginnings of some segments, without the empty one, after a path. -/
def beginnings (done segments : List String) : List (List String) :=
  segments.inits.tail.map (done ++ ·)

/-- The shortest beginning is the first segment, and the others go on from there. -/
theorem beginnings_cons (done segments : List String) (segment : String) :
    beginnings done (segment :: segments) =
      [done ++ [segment]] ++ beginnings (done ++ [segment]) segments := by
  unfold beginnings
  cases segments with
  | nil => rfl
  | cons next segments => simp [Function.comp_def]

/-- Following navigations adds joins for the beginnings that lead somewhere and have none, whether
it succeeds or fails. -/
theorem gains_followAll (segments : List String) {done : List String} {place : Place}
    (hplan : s.Sound plan) (hplace : s.place? plan done = some place) :
    JoinPlan.Gains (beginnings done (s.metadata.navigable place.entity segments)) plan
      (finalState (s.followAll done place segments plan)) := by
  induction segments generalizing done place plan with
  | nil => exact JoinPlan.gains_self fun _ hp => (List.not_mem_nil hp).elim
  | cons segment segments ih =>
    unfold followAll Metadata.navigable
    show JoinPlan.Gains _ plan (finalState (EStateM.bind _ _ plan))
    unfold EStateM.bind
    rcases follow_of_sound hplan hplace segment with
      ⟨place₁, plan₁, hstep, hfollow, hplan₁, hplace₁, hgains⟩ | ⟨hnone, hfollow⟩
    · rw [hstep, hfollow]
      dsimp only
      rw [beginnings_cons]
      refine hgains.trans (ih hplan₁ hplace₁) ?_
      -- The beginnings after the first one are longer than it.
      rw [List.singleton_disjoint]
      intro hmem
      obtain ⟨more, hmore, heq⟩ := List.mem_map.mp hmem
      exact (mem_tail_inits.mp hmore).1 (List.append_right_eq_self.mp heq)
    · rw [hnone, hfollow]
      exact JoinPlan.gains_self fun _ hp => (List.not_mem_nil hp).elim

/-! ## Paths -/

/-- The joins that resolutions leave behind, one after the other from none on, are sound. -/
theorem sound_joinsAfter (s : Scope) (resolutions : List Resolution) :
    s.Sound (s.joinsAfter resolutions) :=
  (Sound.empty s).grows (s.joinsAfter_grows resolutions)

/-- Over sound joins, a path is resolved to the entity type that it leads to. A path that leads
nowhere fails at the first segment that is no navigation of the entity type that was reached. -/
theorem resolve_of_sound (hplan : s.Sound plan) (path : List String) :
    (∃ place plan', s.metadata.walk? s.root path = some place.entity ∧
      s.resolve path plan = .ok place plan') ∨
    (∃ segment rest entity plan',
      path = s.metadata.navigable s.root path ++ segment :: rest ∧
      s.metadata.walk? s.root (s.metadata.navigable s.root path) = some entity ∧
      s.metadata.step? entity segment = none ∧
      s.resolve path plan = .error (.unknownNavigation entity segment) plan') :=
  followAll_of_sound hplan (s.place?_nil plan)

/-- A path of navigations that the model knows is resolved to where they lead. -/
theorem resolve_of_walk {path : List String} {entity : String} (hplan : s.Sound plan)
    (hwalk : s.metadata.walk? s.root path = some entity) :
    ∃ place plan', s.resolve path plan = .ok place plan' ∧ place.entity = entity := by
  rcases resolve_of_sound hplan path with ⟨place, plan', hplace, h⟩ | ⟨_, _, _, _, hsplit, -⟩
  · exact ⟨place, plan', h, Option.some.inj (hplace.symm.trans hwalk)⟩
  · -- Nothing of the path is left behind what leads somewhere.
    rw [Metadata.navigable_eq_self (Metadata.leads_iff_walk?.mpr hwalk)] at hsplit
    cases List.self_eq_append_right.mp hsplit

/-- A path that is resolved leads to the entity type of its place. -/
theorem leads_of_resolve {path : List String} {place : Place} (hplan : s.Sound plan)
    (h : s.resolve path plan = .ok place plan') :
    s.metadata.Leads s.root path place.entity := by
  rcases resolve_of_sound hplan path with ⟨_, _, hwalk, hok⟩ | ⟨_, _, _, _, -, -, -, herror⟩
  · rw [h] at hok
    cases hok
    exact Metadata.leads_iff_walk?.mpr hwalk
  · rw [h] at herror
    cases herror

/-- A resolution adds joins for the beginnings of its path that lead somewhere and have none. -/
theorem gains_resolve (path : List String) (hplan : s.Sound plan) :
    JoinPlan.Gains (s.metadata.navigable s.root path).inits.tail plan
      (finalState (s.resolve path plan)) := by
  have h := gains_followAll path hplan (s.place?_nil plan)
  unfold beginnings at h
  simp only [List.nil_append, List.map_id'] at h
  exact h

/-- Resolving a path once more has the same result, and changes nothing. -/
theorem resolve_again {path : List String} {place : Place} (hplan : s.Sound plan)
    (h : s.resolve path plan = .ok place plan') : s.resolve path plan' = .ok place plan' := by
  have hplan' := hplan.grows ((s.resolve_moves path).ok h)
  obtain ⟨place', plan'', hagain, -⟩ :=
    resolve_of_walk hplan' (Metadata.leads_iff_walk?.mp (leads_of_resolve hplan h))
  -- Every beginning of the path has its join already.
  have hgains := gains_resolve path hplan'
  rw [hagain, Metadata.navigable_eq_self (leads_of_resolve hplan h)] at hgains
  obtain rfl : plan'' = plan' := by
    refine hgains.eq_of_subset fun p hp => ?_
    rw [mem_tail_inits] at hp
    exact (mem_paths_resolve h p).mpr (.inr hp)
  -- The place of the path is the one that was there.
  have hplace := resolve_ok hagain
  rw [resolve_ok h] at hplace
  cases hplace
  exact hagain

/-- What a resolution comes to, after any other ones. The longest beginning of the path that leads
somewhere gets its joins: those that were not there are appended, the shorter ones first. The
resolution succeeds exactly when this is the whole path, with the entity type that it leads to under
the alias of its join, and succeeds without a change when it is repeated. Otherwise it names the
segment behind that beginning and the entity type that has no such navigation. -/
theorem resolve_effect (s : Scope) (resolutions : List Resolution) (path : List String) :
    let plan := s.joinsAfter resolutions
    ∃ reached : List String,
      (∀ q, q <+: reached ↔ q <+: path ∧ ∃ entity, s.metadata.Leads s.root q entity) ∧
      (∃ added, (finalState (s.resolve path plan)).steps = plan.steps ++ added ∧
        added.map (·.path) = reached.inits.tail.filter fun p => (plan.get? p).isNone) ∧
      (succeeds (s.resolve path plan) = true ↔ ∃ entity, s.metadata.Leads s.root path entity) ∧
      (∀ place plan', s.resolve path plan = .ok place plan' →
        s.metadata.Leads s.root path place.entity ∧
        (path = [] → place.alias? = s.config.rootAlias?) ∧
        (path ≠ [] → ∃ aliasName, plan'.alias? path = some aliasName ∧
          place.alias? = some aliasName) ∧
        s.resolve path plan' = .ok place plan') ∧
      (∀ e plan', s.resolve path plan = .error e plan' →
        ∃ segment rest entity, path = reached ++ segment :: rest ∧
          s.metadata.Leads s.root reached entity ∧
          (∀ target, ¬ (s.metadata.isNavigation entity segment = true ∧
            s.metadata.target? entity segment = some target)) ∧
          e = .unknownNavigation entity segment) := by
  intro plan
  have hplan : s.Sound plan := s.sound_joinsAfter resolutions
  refine ⟨s.metadata.navigable s.root path, fun q => Metadata.isPrefix_navigable_iff,
    gains_resolve path hplan, ⟨?_, ?_⟩, ?_, ?_⟩
  · intro h
    obtain ⟨place, plan', hok⟩ := exists_of_succeeds h
    exact ⟨place.entity, leads_of_resolve hplan hok⟩
  · rintro ⟨entity, h⟩
    obtain ⟨place, plan', hok, -⟩ := resolve_of_walk hplan (Metadata.leads_iff_walk?.mp h)
    rw [hok]
    rfl
  · intro place plan' h
    refine ⟨leads_of_resolve hplan h, ?_, ?_, resolve_again hplan h⟩
    · rintro rfl
      cases h
      rfl
    · intro hpath
      have hplace := resolve_ok h
      unfold place? at hplace
      rw [if_neg hpath] at hplace
      obtain ⟨step, hget, rfl⟩ := Option.map_eq_some_iff.mp hplace
      refine ⟨step.aliasName, ?_, rfl⟩
      unfold JoinPlan.alias?
      rw [hget]
      rfl
  · intro e plan' h
    rcases resolve_of_sound hplan path with
      ⟨_, _, -, hok⟩ | ⟨segment, rest, entity, _, hsplit, hwalk, hunknown, herror⟩
    · rw [h] at hok
      cases hok
    · rw [h] at herror
      cases herror
      refine ⟨segment, rest, entity, hsplit, Metadata.leads_iff_walk?.mpr hwalk, ?_, rfl⟩
      intro target htarget
      rw [Metadata.step?_eq_some.mpr htarget] at hunknown
      cases hunknown

end Scope

end EntityQuery
