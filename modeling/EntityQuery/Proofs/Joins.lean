import EntityQuery.Proofs.FreeName
import EntityQuery.Proofs.Run

/-!
# Registered joins

What resolving a path does to the joins. Each segment is followed by `follow`, of which
`follow_cases` says all: it goes over the join that is there, it adds one join, or it fails and
changes nothing. Adding one join is the relation `Adds`, and every resolution, also one that fails,
is a walk of such steps (`resolve_moves`, `resolveProperty_moves`). `place?` is what a path leads to
by the joins that are there: a resolution that succeeds leaves its result behind as the place of its
path (`resolve_ok`), and a place stays where it is (`place?_of_grows`).
-/

open Relation (ReflTransGen)

namespace EntityQuery

/-- The entity type that navigations lead to, one after the other. -/
def Metadata.walk? (m : Metadata) (entity : String) : List String → Option String
  | [] => some entity
  | segment :: segments => (m.step? entity segment).bind fun target => m.walk? target segments

/-- The last step of a walk is taken from where the others lead. -/
theorem Metadata.walk?_concat (m : Metadata) (entity : String) (path : List String)
    (segment : String) :
    m.walk? entity (path ++ [segment]) = (m.walk? entity path).bind (m.step? · segment) := by
  induction path generalizing entity with
  | nil =>
    show (m.step? entity segment).bind some = m.step? entity segment
    exact Option.bind_fun_some _
  | cons first path ih =>
    show (m.step? entity first).bind _ = ((m.step? entity first).bind _).bind _
    rw [Option.bind_assoc]
    exact congrArg _ (funext fun target => ih target)

namespace JoinPlan

/-- The paths of the joins. -/
def paths (plan : JoinPlan) : List (List String) := plan.steps.map (·.path)

/-- A join that is found is there, and has the path that was looked for. -/
theorem get?_eq_some {plan : JoinPlan} {path : List String} {step : Join}
    (h : plan.get? path = some step) : step ∈ plan.steps ∧ step.path = path :=
  ⟨List.mem_of_find?_eq_some h, by simpa using List.find?_some h⟩

/-- A path has no join when it is none of the paths. -/
theorem get?_eq_none {plan : JoinPlan} {path : List String} :
    plan.get? path = none ↔ path ∉ plan.paths := by
  unfold get? paths
  rw [List.find?_eq_none]
  simp only [beq_iff_eq, List.mem_map, not_exists, not_and]

/-- Joins that are appended do not change the join of a path. -/
theorem get?_of_isPrefix {plan plan' : JoinPlan} (h : plan.steps <+: plan'.steps)
    {path : List String} {step : Join} (hget : plan.get? path = some step) :
    plan'.get? path = some step := by
  obtain ⟨rest, hrest⟩ := h
  unfold get? at hget ⊢
  rw [← hrest, List.find?_append, hget]
  rfl

/-- The join of a path that is added last. -/
theorem get?_push {plan : JoinPlan} {step : Join} (h : plan.get? step.path = none) :
    (plan.push step).get? step.path = some step := by
  unfold push get? at *
  rw [List.find?_append, h]
  simp

/-- The paths with one more join. -/
theorem paths_push (plan : JoinPlan) (step : Join) :
    (plan.push step).paths = plan.paths ++ [step.path] := List.map_append

/-- The aliases with one more join. -/
theorem aliases_push (plan : JoinPlan) (step : Join) :
    (plan.push step).aliases = plan.aliases ++ [step.aliasName] := List.map_append

end JoinPlan

namespace Scope

variable {s : Scope} {plan plan' : JoinPlan}

/-! ## Aliases -/

/-- The candidates for the alias of a path differ. -/
theorem aliasCandidate_injective (s : Scope) (path : List String) :
    Function.Injective (s.aliasCandidate path) := by
  -- A number is never written without digits, so a numbered candidate is not the plain one.
  have hplain : ∀ (base : String) (n : Nat), base ≠ base ++ toString n := by
    intro base n h
    rw [← String.append_empty (s := base), String.append_assoc, String.append_right_inj,
      String.empty_append, Nat.toString_eq_ofList_toDigits] at h
    have hlist := congrArg String.toList h
    rw [String.toList_empty, String.toList_ofList] at hlist
    exact Nat.toDigits_ne_nil hlist.symm
  intro m n h
  unfold aliasCandidate at h
  dsimp only at h
  split at h
  next hm =>
    split at h
    next hn => rw [hm, hn]
    next => exact absurd h (hplain _ _)
  next =>
    split at h
    next => exact absurd h.symm (hplain _ _)
    next =>
      rw [String.append_right_inj] at h
      have := toString_injective h
      omega

/-- A new alias is free. -/
theorem not_isAliasTaken_freshAlias (s : Scope) (plan : JoinPlan) (path : List String) :
    s.isAliasTaken plan (s.freshAlias plan path) = false := by
  unfold freshAlias
  apply not_isTaken_firstFree (s.aliasCandidate_injective path)
    (s.config.rootAlias?.toList ++ plan.aliases)
  · intro name h
    unfold isAliasTaken at h
    rw [Bool.or_eq_true, beq_iff_eq, List.contains_iff_mem] at h
    rw [List.mem_append, Option.mem_toList]
    exact h
  · rw [List.length_append]
    unfold JoinPlan.aliases
    rw [List.length_map]
    cases s.config.rootAlias? <;> simp [Nat.add_comm]

/-- A new alias is not the root's. -/
theorem freshAlias_ne_root (s : Scope) (plan : JoinPlan) (path : List String) :
    s.config.rootAlias? ≠ some (s.freshAlias plan path) := by
  have h := s.not_isAliasTaken_freshAlias plan path
  unfold isAliasTaken at h
  rw [Bool.or_eq_false_iff, beq_eq_false_iff_ne] at h
  exact h.1

/-- A new alias is no join's. -/
theorem freshAlias_not_mem (s : Scope) (plan : JoinPlan) (path : List String) :
    s.freshAlias plan path ∉ plan.aliases := by
  have h := s.not_isAliasTaken_freshAlias plan path
  unfold isAliasTaken at h
  rw [Bool.or_eq_false_iff] at h
  intro hmem
  rw [← List.contains_iff_mem, h.2] at hmem
  cases hmem

/-! ## Places -/

/-- What a path leads to by the joins that are there. -/
def place? (s : Scope) (plan : JoinPlan) (path : List String) : Option Place :=
  if path = [] then some s.rootPlace
  else (plan.get? path).map fun step => ⟨some step.aliasName, step.target⟩

/-- The join that leads from a place to the target of a navigation. -/
def newJoin (s : Scope) (plan : JoinPlan) (path : List String) (place : Place)
    (segment target : String) : Join :=
  ⟨path ++ [segment], place.alias?, segment, s.freshAlias plan (path ++ [segment]), target⟩

/-- One more join is registered: of a path that has none yet, from the place that the path before
its last segment leads to, along a navigation of the model. -/
inductive Adds (s : Scope) (plan : JoinPlan) : JoinPlan → Prop
  | join {path : List String} {place : Place} {segment target : String}
      (hplace : s.place? plan path = some place) (hnew : plan.get? (path ++ [segment]) = none)
      (hstep : s.metadata.step? place.entity segment = some target) :
      Adds s plan (plan.push (s.newJoin plan path place segment target))

/-- Along a walk, joins are only appended. -/
theorem steps_grow (h : ReflTransGen s.Adds plan plan') : plan.steps <+: plan'.steps := by
  induction h with
  | refl => exact List.prefix_refl _
  | tail _ hadds ih =>
    cases hadds
    exact ih.trans (List.prefix_append _ _)

/-- A place that the joins lead to stays where it is when joins are appended. -/
theorem place?_of_isPrefix (h : plan.steps <+: plan'.steps) {path : List String} {place : Place}
    (hplace : s.place? plan path = some place) : s.place? plan' path = some place := by
  unfold place? at hplace ⊢
  split at hplace
  next hroot => rw [if_pos hroot, hplace]
  next hroot =>
    rw [if_neg hroot]
    obtain ⟨step, hget, rfl⟩ := Option.map_eq_some_iff.mp hplace
    rw [JoinPlan.get?_of_isPrefix h hget]
    rfl

/-- Along a walk, a place stays where it is. -/
theorem place?_of_grows (h : ReflTransGen s.Adds plan plan') {path : List String} {place : Place}
    (hplace : s.place? plan path = some place) : s.place? plan' path = some place :=
  place?_of_isPrefix (steps_grow h) hplace

/-- The empty path leads to the root. -/
theorem place?_nil (s : Scope) (plan : JoinPlan) : s.place? plan [] = some s.rootPlace := if_pos rfl

/-- The place of a path that has a join. -/
theorem place?_of_get? {path : List String} {step : Join} (hpath : path ≠ [])
    (h : plan.get? path = some step) :
    s.place? plan path = some ⟨some step.aliasName, step.target⟩ := by
  unfold place?
  rw [if_neg hpath, h]
  rfl

/-! ## Resolution -/

/-- All that following a navigation can do: go over the join that is there, fail where the model
has no such navigation, or add a join. -/
theorem follow_cases (s : Scope) (done : List String) (place : Place) (segment : String)
    (plan : JoinPlan) :
    (∃ step, plan.get? (done ++ [segment]) = some step ∧
      s.follow done place segment plan = .ok ⟨some step.aliasName, step.target⟩ plan) ∨
    (plan.get? (done ++ [segment]) = none ∧ s.metadata.step? place.entity segment = none ∧
      s.follow done place segment plan =
        .error (.unknownNavigation place.entity segment) plan) ∨
    (∃ target, plan.get? (done ++ [segment]) = none ∧
      s.metadata.step? place.entity segment = some target ∧
      s.follow done place segment plan =
        .ok ⟨some (s.freshAlias plan (done ++ [segment])), target⟩
          (plan.push (s.newJoin plan done place segment target))) := by
  unfold follow
  cases hget : plan.get? (done ++ [segment]) with
  | some step =>
    refine .inl ⟨step, rfl, ?_⟩
    show EStateM.bind EStateM.get _ plan = _
    unfold EStateM.bind EStateM.get
    dsimp only
    rw [hget]
    rfl
  | none =>
    cases hstep : s.metadata.step? place.entity segment with
    | none =>
      refine .inr (.inl ⟨rfl, rfl, ?_⟩)
      show EStateM.bind EStateM.get _ plan = _
      unfold EStateM.bind EStateM.get
      dsimp only
      rw [hget]
      rfl
    | some target =>
      refine .inr (.inr ⟨target, rfl, rfl, ?_⟩)
      show EStateM.bind EStateM.get _ plan = _
      unfold EStateM.bind EStateM.get
      dsimp only
      rw [hget]
      rfl

/-- Following a navigation from the place of a path is a walk that adds at most one join. -/
theorem follow_grows {done : List String} {place : Place}
    (hplace : s.place? plan done = some place) (segment : String) :
    ReflTransGen s.Adds plan (finalState (s.follow done place segment plan)) := by
  rcases s.follow_cases done place segment plan with
    ⟨step, -, h⟩ | ⟨-, -, h⟩ | ⟨target, hget, hstep, h⟩
  · rw [h]
    exact ReflTransGen.refl
  · rw [h]
    exact ReflTransGen.refl
  · rw [h]
    exact ReflTransGen.single (.join hplace hget hstep)

/-- Following a navigation, when that succeeds, ends at the place of the path with one more segment,
and that path is the only one that may have got a join. -/
theorem follow_ok {done : List String} {place place' : Place} {segment : String}
    (h : s.follow done place segment plan = .ok place' plan') :
    s.place? plan' (done ++ [segment]) = some place' ∧
      ∀ path, path ∈ plan'.paths ↔ path ∈ plan.paths ∨ path = done ++ [segment] := by
  have hpath : done ++ [segment] ≠ [] := List.append_ne_nil_of_right_ne_nil _ (List.cons_ne_nil _ _)
  rcases s.follow_cases done place segment plan with
    ⟨step, hget, hok⟩ | ⟨-, -, hok⟩ | ⟨target, hget, -, hok⟩
  · -- The join is there.
    rw [hok] at h
    cases h
    refine ⟨place?_of_get? hpath hget, fun path => ⟨.inl, ?_⟩⟩
    rintro (h | rfl)
    · exact h
    · obtain ⟨hmem, heq⟩ := JoinPlan.get?_eq_some hget
      rw [← heq]
      exact List.mem_map_of_mem hmem
  · rw [hok] at h
    cases h
  · -- The join is added.
    rw [hok] at h
    cases h
    let step := s.newJoin plan done place segment target
    have hnew : (plan.push step).get? step.path = some step := JoinPlan.get?_push hget
    refine ⟨place?_of_get? hpath hnew, fun path => ?_⟩
    rw [JoinPlan.paths_push, List.mem_append, List.mem_singleton]
    rfl

/-- Following navigations from the place of a path is a walk that adds joins. -/
theorem followAll_grows (segments : List String) {done : List String} {place : Place}
    (hplace : s.place? plan done = some place) :
    ReflTransGen s.Adds plan (finalState (s.followAll done place segments plan)) := by
  induction segments generalizing done place plan with
  | nil => exact ReflTransGen.refl
  | cons segment segments ih =>
    have hfollow := follow_grows hplace segment
    -- The other segments are followed from where the first one led to, or not at all.
    unfold followAll
    show ReflTransGen s.Adds plan (finalState (EStateM.bind _ _ plan))
    unfold EStateM.bind
    cases hrun : s.follow done place segment plan with
    | ok place' plan' =>
      rw [hrun] at hfollow
      exact hfollow.trans (ih (follow_ok hrun).1)
    | error e plan' =>
      rw [hrun] at hfollow
      exact hfollow

/-- Following navigations, when that succeeds, ends at the place of the longer path. -/
theorem followAll_ok {segments done : List String} {place place' : Place}
    (hplace : s.place? plan done = some place)
    (h : s.followAll done place segments plan = .ok place' plan') :
    s.place? plan' (done ++ segments) = some place' := by
  induction segments generalizing done place plan with
  | nil =>
    cases h
    rw [List.append_nil]
    exact hplace
  | cons segment segments ih =>
    unfold followAll at h
    rw [bind_eq_ok] at h
    obtain ⟨place₁, plan₁, hfollow, h⟩ := h
    rw [List.append_cons]
    exact ih (follow_ok hfollow).1 h

/-- A path goes on from another one along segments, by one at least, when it is that path with the
first segment, or goes on from there along the others. -/
theorem exists_more_cons_iff {done segments path : List String} {segment : String} :
    (∃ more, more ≠ [] ∧ more <+: segment :: segments ∧ path = done ++ more) ↔
      path = done ++ [segment] ∨
        ∃ more, more ≠ [] ∧ more <+: segments ∧ path = (done ++ [segment]) ++ more := by
  constructor
  · rintro ⟨more, hne, hpre, rfl⟩
    obtain ⟨first, rest, rfl⟩ := List.exists_cons_of_ne_nil hne
    rw [List.cons_prefix_cons] at hpre
    obtain ⟨rfl, hpre⟩ := hpre
    by_cases hrest : rest = []
    · rw [hrest]
      exact .inl rfl
    · exact .inr ⟨rest, hrest, hpre, List.append_cons ..⟩
  · rintro (rfl | ⟨more, -, hpre, rfl⟩)
    · exact ⟨[segment], List.cons_ne_nil _ _, List.cons_prefix_cons.mpr ⟨rfl, List.nil_prefix⟩, rfl⟩
    · exact ⟨segment :: more, List.cons_ne_nil _ _, List.cons_prefix_cons.mpr ⟨rfl, hpre⟩,
        (List.append_cons ..).symm⟩

/-- Following navigations, when that succeeds, registers the paths that go on from the one that was
reached before, and no others. -/
theorem mem_paths_followAll {segments done : List String} {place place' : Place}
    (h : s.followAll done place segments plan = .ok place' plan') (path : List String) :
    path ∈ plan'.paths ↔
      path ∈ plan.paths ∨ ∃ more, more ≠ [] ∧ more <+: segments ∧ path = done ++ more := by
  induction segments generalizing done place plan with
  | nil =>
    cases h
    simp
  | cons segment segments ih =>
    unfold followAll at h
    rw [bind_eq_ok] at h
    obtain ⟨place₁, plan₁, hfollow, h⟩ := h
    rw [ih h, (follow_ok hfollow).2, exists_more_cons_iff, or_assoc]

/-- Every resolution of a path is a walk that adds joins. -/
theorem resolve_moves (s : Scope) (path : List String) : Moves s.Adds (s.resolve path) :=
  fun plan => followAll_grows path (s.place?_nil plan)

/-- A resolution that succeeds ends at the place of its path. -/
theorem resolve_ok {path : List String} {place : Place}
    (h : s.resolve path plan = .ok place plan') : s.place? plan' path = some place :=
  followAll_ok (s.place?_nil plan) h

/-- A resolution that succeeds registers the prefixes of its path, and no others. -/
theorem mem_paths_resolve {path : List String} {place : Place}
    (h : s.resolve path plan = .ok place plan') (p : List String) :
    p ∈ plan'.paths ↔ p ∈ plan.paths ∨ p ≠ [] ∧ p <+: path := by
  rw [mem_paths_followAll h]
  simp

/-- A property resolves to a column when the navigations before it resolve to a place, and it
stands for a column of that place. -/
theorem resolveProperty_ok {path : List String} {column : Scalar}
    (h : s.resolveProperty path plan = .ok column plan') :
    ∃ last place name, path.getLast? = some last ∧
      s.resolve path.dropLast plan = .ok place plan' ∧ s.column? place last = some name ∧
      column = .column place.alias? name := by
  unfold resolveProperty at h
  cases hlast : path.getLast? with
  | none =>
    rw [hlast] at h
    exact absurd h throw_ne_ok
  | some last =>
    rw [hlast] at h
    obtain ⟨place, plan₁, hresolve, h⟩ := bind_eq_ok.mp h
    cases hname : s.column? place last with
    | none =>
      rw [hname] at h
      exact absurd h throw_ne_ok
    | some name =>
      rw [hname] at h
      obtain ⟨rfl, rfl⟩ := pure_eq_ok.mp h
      exact ⟨last, place, name, rfl, hresolve, hname, rfl⟩

/-- Every resolution of a property is a walk that adds joins. -/
theorem resolveProperty_moves (s : Scope) (path : List String) :
    Moves s.Adds (s.resolveProperty path) := by
  unfold resolveProperty
  cases path.getLast? with
  | none => exact Moves.throw _
  | some last =>
    refine (s.resolve_moves _).bind fun place => ?_
    cases s.column? place last with
    | none => exact Moves.throw _
    | some name => exact Moves.pure _

end Scope

end EntityQuery
