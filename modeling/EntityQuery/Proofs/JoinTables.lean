import EntityQuery.Proofs.Indexes
import EntityQuery.Proofs.JoinTree

/-!
# Joins with an index

Joins may be kept with an index from paths to positions, which spares the search through the joins.
`JoinTable` does so: a path is looked up at the position that the index says, and a new join is
appended and its path put into the index. The index of a table is right when it has the paths of the
joins, each with its position, and nothing else (`JoinTable.IsIndexed`).

Resolutions are run on tables as they are on joins without an index. Only a path that the index does
not have is given a join, so each of them keeps the index right, and a run on a table comes to the
same as the run on its joins and leaves the same joins behind (`JoinTable.Tracks`). What resolutions
leave in a table, whether they succeed or fail, is then a right index over a tree of joins
(`Scope.tableAfter_indexed_tree`).
-/

namespace EntityQuery

/-- Joins with an index. -/
structure JoinTable where
  /-- The joins. -/
  steps : List Join
  /-- The positions of their paths. -/
  index : Std.HashMap (List String) Nat

/-- A computation that adds joins to a table. What was added stays when it fails. -/
abbrev JoinTable.Run := EStateM PlanError JoinTable

namespace JoinTable

/-- No joins. -/
def empty : JoinTable := ⟨[], ∅⟩

/-- The join of a path, at the position that the index says. -/
def get? (t : JoinTable) (path : List String) : Option Join :=
  t.index[path]?.bind fun i => t.steps[i]?

/-- The alias of a path. -/
def alias? (t : JoinTable) (path : List String) : Option String :=
  (t.get? path).map (·.aliasName)

/-- The table with one more join, whose path has its position in the index. -/
def push (t : JoinTable) (step : Join) : JoinTable :=
  ⟨t.steps ++ [step], t.index.insert step.path t.steps.length⟩

/-- The joins without their index. -/
def plan (t : JoinTable) : JoinPlan := ⟨t.steps⟩

/-! ## Resolutions on tables -/

/-- Follows one navigation from the place that a path leads to, over its join if the index has one
and over a new join if not. An alias is taken when one of the joins has it. -/
def follow (s : Scope) (done : List String) (place : Place) (segment : String) : Run Place := do
  let path := done ++ [segment]
  let t ← get
  match t.get? path with
  | some step => return ⟨some step.aliasName, step.target⟩
  | none =>
    match s.metadata.step? place.entity segment with
    | none => throw (.unknownNavigation place.entity segment)
    | some target =>
      let aliasName := s.freshAlias t.plan path
      set (t.push ⟨path, place.alias?, segment, aliasName, target⟩)
      return ⟨some aliasName, target⟩

/-- Follows navigations one after the other from the place that a path leads to. -/
def followAll (s : Scope) (done : List String) (place : Place) : List String → Run Place
  | [] => return place
  | segment :: segments => do
    let place ← follow s done place segment
    followAll s (done ++ [segment]) place segments

/-- What a path of navigations leads to; the empty one leads to the root. -/
def resolve (s : Scope) (path : List String) : Run Place := followAll s [] s.rootPlace path

/-- The column that a path of navigations and a last property lead to. -/
def resolveProperty (s : Scope) (path : List String) : Run Scalar := do
  match path.getLast? with
  | none => throw (.unknownProperty s.root "")
  | some last =>
    let place ← resolve s path.dropLast
    match s.column? place last with
    | some column => return .column place.alias? column
    | none => throw (.unknownProperty place.entity last)

/-! ## Right indexes -/

variable {t : JoinTable} {α β : Type}

/-- The index has the paths of the joins with their positions, and nothing else. -/
def IsIndexed (t : JoinTable) : Prop := Indexes t.index t.plan.paths

/-- A table without joins has an empty index. -/
theorem isIndexed_empty : empty.IsIndexed := Indexes.empty

namespace IsIndexed

/-- What is found through the index is what the search through the joins finds. -/
theorem get?_eq (h : t.IsIndexed) (path : List String) : t.get? path = t.plan.get? path :=
  Indexes.getElem?_eq h path

/-- A join of a path that has none keeps the index right. -/
theorem push (h : t.IsIndexed) {step : Join} (hnew : t.plan.get? step.path = none) :
    (t.push step).IsIndexed := by
  have hlength : t.plan.paths.length = t.steps.length := List.length_map ..
  have hpaths : (t.push step).plan.paths = t.plan.paths ++ [step.path] := t.plan.paths_push step
  unfold IsIndexed
  rw [hpaths]
  unfold JoinTable.push
  rw [← hlength]
  exact Indexes.push h (JoinPlan.get?_eq_none.mp hnew)

end IsIndexed

/-! ## Runs with and without an index -/

/-- What a run on a table came to is what one without an index came to: the same result or error,
with a right table over the same joins. -/
inductive Agrees : EStateM.Result PlanError JoinTable α → EStateM.Result PlanError JoinPlan α → Prop
  /-- Both succeed. -/
  | ok (a : α) {t : JoinTable} (indexed : t.IsIndexed) : Agrees (.ok a t) (.ok a t.plan)
  /-- Both fail. -/
  | error (e : PlanError) {t : JoinTable} (indexed : t.IsIndexed) :
      Agrees (.error e t) (.error e t.plan)

/-- The state that is left behind is a right table over the joins that are left without an index. -/
theorem Agrees.finalState {r : EStateM.Result PlanError JoinTable α}
    {r' : EStateM.Result PlanError JoinPlan α} (h : Agrees r r') :
    (EntityQuery.finalState r).IsIndexed ∧
      (EntityQuery.finalState r).plan = EntityQuery.finalState r' := by
  cases h with
  | ok a indexed => exact ⟨indexed, rfl⟩
  | error e indexed => exact ⟨indexed, rfl⟩

/-- From every right table, a run comes to what another one comes to from its joins. -/
def Tracks (x : Run α) (y : JoinPlan.Run α) : Prop :=
  ∀ t : JoinTable, t.IsIndexed → Agrees (x t) (y t.plan)

namespace Tracks

/-- Returning a result changes no table. -/
theorem pure (a : α) : Tracks (Pure.pure a) (Pure.pure a) := fun _ h => .ok a h

/-- Nor does failing. -/
theorem throw (e : PlanError) :
    Tracks (MonadExcept.throw e : Run α) (MonadExcept.throw e : JoinPlan.Run α) :=
  fun _ h => .error e h

/-- Sequences are tracked when their parts are. -/
theorem bind {x : Run α} {y : JoinPlan.Run α} {f : α → Run β} {g : α → JoinPlan.Run β}
    (hx : Tracks x y) (hf : ∀ a, Tracks (f a) (g a)) : Tracks (x >>= f) (y >>= g) := by
  intro t ht
  have hrun := hx t ht
  show Agrees (EStateM.bind x f t) (EStateM.bind y g t.plan)
  unfold EStateM.bind
  generalize x t = r, y t.plan = r' at hrun ⊢
  cases hrun with
  | ok a h => exact hf a _ h
  | error e h => exact .error e h

/-- Two runs that look at their joins may go on from right tables and their joins. -/
theorem get {f : JoinTable → Run α} {g : JoinPlan → JoinPlan.Run α}
    (h : ∀ t : JoinTable, t.IsIndexed → Agrees (f t t) (g t.plan t.plan)) :
    Tracks (MonadState.get >>= f) (MonadState.get >>= g) := h

end Tracks

/-- Following a navigation finds the same join, or adds the same one. -/
theorem follow_tracks (s : Scope) (done : List String) (place : Place) (segment : String) :
    Tracks (follow s done place segment) (s.follow done place segment) := by
  unfold follow Scope.follow
  refine .get fun t ht => ?_
  dsimp only
  rw [ht.get?_eq]
  cases hget : t.plan.get? (done ++ [segment]) with
  | some step => exact .ok _ ht
  | none =>
    cases s.metadata.step? place.entity segment with
    | none => exact .error _ ht
    | some target => exact .ok _ (ht.push hget)

/-- Following navigations tracks as each of them does. -/
theorem followAll_tracks (s : Scope) (done : List String) (place : Place) (path : List String) :
    Tracks (followAll s done place path) (s.followAll done place path) := by
  induction path generalizing done place with
  | nil => exact .pure place
  | cons segment segments ih =>
    exact .bind (follow_tracks s done place segment) fun place => ih (done ++ [segment]) place

/-- A path of navigations leads to the same place. -/
theorem resolve_tracks (s : Scope) (path : List String) :
    Tracks (resolve s path) (s.resolve path) := followAll_tracks s [] s.rootPlace path

/-- A path of navigations and a last property leads to the same column. -/
theorem resolveProperty_tracks (s : Scope) (path : List String) :
    Tracks (resolveProperty s path) (s.resolveProperty path) := by
  unfold resolveProperty Scope.resolveProperty
  cases path.getLast? with
  | none => exact .throw _
  | some last =>
    refine .bind (resolve_tracks s path.dropLast) fun place => ?_
    cases s.column? place last with
    | some column => exact .pure _
    | none => exact .throw _

end JoinTable

namespace Scope

/-! ## Sequences of resolutions -/

/-- The table that a resolution leaves behind, whether it succeeds or fails. -/
def Resolution.afterInTable (s : Scope) (t : JoinTable) : Resolution → JoinTable
  | navigations path => finalState (JoinTable.resolve s path t)
  | property path => finalState (JoinTable.resolveProperty s path t)

/-- The table that resolutions leave behind, one after the other from no joins on. -/
def tableAfter (s : Scope) (resolutions : List Resolution) : JoinTable :=
  resolutions.foldl (Resolution.afterInTable s) .empty

/-- A resolution leaves a right table behind, with the joins that it leaves without an index. -/
theorem Resolution.afterInTable_agrees (s : Scope) (r : Resolution) {t : JoinTable}
    (ht : t.IsIndexed) :
    (r.afterInTable s t).IsIndexed ∧ (r.afterInTable s t).plan = r.after s t.plan := by
  cases r with
  | navigations path => exact (JoinTable.resolve_tracks s path t ht).finalState
  | property path => exact (JoinTable.resolveProperty_tracks s path t ht).finalState

/-- Resolutions leave a right table behind, with the joins that they leave without an index. -/
theorem tableAfter_agrees (s : Scope) (resolutions : List Resolution) :
    (s.tableAfter resolutions).IsIndexed ∧
      (s.tableAfter resolutions).plan = s.joinsAfter resolutions := by
  induction resolutions using List.reverseRecOn with
  | nil => exact ⟨JoinTable.isIndexed_empty, rfl⟩
  | append_singleton resolutions r ih =>
    obtain ⟨hindexed, hplan⟩ := ih
    have hlast := r.afterInTable_agrees s hindexed
    unfold tableAfter joinsAfter at hplan ⊢
    rw [List.foldl_concat, List.foldl_concat, ← hplan]
    exact hlast

/-- Whatever is resolved from no joins on, and whether it succeeds or fails, index and joins agree:
the index has exactly the paths of the joins, each with the position of its join, so a path is
looked up at the one join that has it, and has an alias only as that join's. The joins form a tree,
and they are those that the resolutions leave without an index. -/
theorem tableAfter_indexed_tree (s : Scope) (resolutions : List Resolution) :
    let t := s.tableAfter resolutions
    (∀ (path : List String) (i : Nat),
      t.index[path]? = some i ↔ ∃ step, t.steps[i]? = some step ∧ step.path = path) ∧
    (∀ path step, t.get? path = some step ↔ step ∈ t.steps ∧ step.path = path) ∧
    (∀ path aliasName, t.alias? path = some aliasName ↔
      ∃ step ∈ t.steps, step.path = path ∧ step.aliasName = aliasName) ∧
    s.IsTree t.plan ∧ t.plan = s.joinsAfter resolutions := by
  intro t
  obtain ⟨hindexed, hplan⟩ := s.tableAfter_agrees resolutions
  have htree : s.IsTree t.plan := hplan ▸ s.joinsAfter_isTree resolutions
  have hget : ∀ path step, t.get? path = some step ↔ step ∈ t.steps ∧ step.path = path := by
    intro path step
    rw [hindexed.get?_eq]
    exact htree.get?_iff path step
  refine ⟨?_, hget, ?_, htree, hplan⟩
  · intro path i
    rw [hindexed path i]
    show (t.steps.map (·.path))[i]? = some path ↔ _
    rw [List.getElem?_map, Option.map_eq_some_iff]
  · intro path aliasName
    unfold JoinTable.alias?
    simp only [Option.map_eq_some_iff, hget, and_assoc]

end Scope

end EntityQuery
