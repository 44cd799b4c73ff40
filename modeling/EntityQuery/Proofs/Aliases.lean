import EntityQuery.Proofs.Joins

/-!
# Joins that can be read back

`Sound` collects what holds of all joins that are registered from none on: paths and aliases
differ, no alias is the root's, and a join leads where the model says that its path leads. Adding a
join keeps it (`Sound.adds`), so every walk does (`Sound.grows`).

It makes the aliases readable. `navigation?` looks an alias up among the joins, and what it finds
for the alias of a place is the path of that place (`Sound.navigation?_place`); it goes on to find
it when more joins are registered (`navigation?_of_isPrefix`).
-/

open Relation (ReflTransGen)

namespace EntityQuery

/-- In a list whose members differ by a key, the first member with the key of a member is that
member. -/
theorem find?_key_eq_some {α β : Type} [BEq β] [LawfulBEq β] (key : α → β) {l : List α}
    (h : (l.map key).Nodup) {a : α} (ha : a ∈ l) : l.find? (key · == key a) = some a := by
  induction l with
  | nil => cases ha
  | cons b l ih =>
    rw [List.map_cons, List.nodup_cons] at h
    rcases List.mem_cons.mp ha with rfl | hmem
    · exact List.find?_cons_of_pos (beq_self_eq_true (key a))
    · rw [List.find?_cons_of_neg, ih h.2 hmem]
      intro heq
      rw [beq_iff_eq] at heq
      exact h.1 (heq ▸ List.mem_map_of_mem hmem)

namespace JoinPlan

/-- The path whose columns an alias qualifies: none of its segments for the root's, and that of its
join for another. -/
def navigation? (plan : JoinPlan) (root? alias? : Option String) : Option (List String) :=
  if alias? = root? then some []
  else (plan.steps.find? fun step => some step.aliasName == alias?).map (·.path)

/-- Joins that are appended do not change what an alias qualifies. -/
theorem navigation?_of_isPrefix {plan plan' : JoinPlan} (h : plan.steps <+: plan'.steps)
    {root? alias? : Option String} {path : List String}
    (hnav : plan.navigation? root? alias? = some path) :
    plan'.navigation? root? alias? = some path := by
  obtain ⟨rest, hrest⟩ := h
  unfold navigation? at hnav ⊢
  split at hnav
  next hroot => rw [if_pos hroot, hnav]
  next hroot =>
    rw [if_neg hroot]
    obtain ⟨step, hfind, rfl⟩ := Option.map_eq_some_iff.mp hnav
    rw [← hrest, List.find?_append, hfind]
    rfl

end JoinPlan

namespace Scope

variable {s : Scope} {plan plan' : JoinPlan}

/-- What holds of all joins that are registered from none on. -/
structure Sound (s : Scope) (plan : JoinPlan) : Prop where
  /-- Every path has one join. -/
  paths_nodup : plan.paths.Nodup
  /-- The root has none. -/
  nil_not_mem : [] ∉ plan.paths
  /-- Every alias has one join. -/
  aliases_nodup : plan.aliases.Nodup
  /-- The root's alias has none. -/
  root_not_mem : ∀ aliasName ∈ plan.aliases, s.config.rootAlias? ≠ some aliasName
  /-- A join leads where the model says that its path leads. -/
  walk_target : ∀ step ∈ plan.steps, s.metadata.walk? s.root step.path = some step.target

namespace Sound

/-- No joins are sound. -/
theorem empty (s : Scope) : s.Sound .empty :=
  ⟨List.nodup_nil, List.not_mem_nil, List.nodup_nil, fun _ h => (List.not_mem_nil h).elim,
    fun _ h => (List.not_mem_nil h).elim⟩

/-- The entity type of a place is where the model says that its path leads. -/
theorem walk_place (h : s.Sound plan) {path : List String} {place : Place}
    (hplace : s.place? plan path = some place) :
    s.metadata.walk? s.root path = some place.entity := by
  unfold place? at hplace
  split at hplace
  next hroot =>
    cases hplace
    rw [hroot]
    rfl
  next =>
    obtain ⟨step, hget, rfl⟩ := Option.map_eq_some_iff.mp hplace
    obtain ⟨hmem, rfl⟩ := JoinPlan.get?_eq_some hget
    exact h.walk_target step hmem

/-- Adding a join to sound joins keeps them sound. -/
theorem adds (h : s.Sound plan) (hadds : s.Adds plan plan') : s.Sound plan' := by
  obtain ⟨hplace, hnew, hstep⟩ := hadds
  rename_i path place segment target
  have hpath := JoinPlan.get?_eq_none.mp hnew
  have halias := s.freshAlias_not_mem plan (path ++ [segment])
  refine ⟨?_, ?_, ?_, ?_, ?_⟩
  · -- The path had no join before.
    rw [JoinPlan.paths_push, List.nodup_append_comm, List.singleton_append, List.nodup_cons]
    exact ⟨hpath, h.paths_nodup⟩
  · rw [JoinPlan.paths_push, List.mem_append, List.mem_singleton]
    rintro (hmem | hnil)
    · exact h.nil_not_mem hmem
    · exact List.append_ne_nil_of_right_ne_nil path (List.cons_ne_nil segment []) hnil.symm
  · -- The alias was searched until it was free.
    rw [JoinPlan.aliases_push, List.nodup_append_comm, List.singleton_append, List.nodup_cons]
    exact ⟨halias, h.aliases_nodup⟩
  · intro aliasName hmem
    rw [JoinPlan.aliases_push, List.mem_append, List.mem_singleton] at hmem
    rcases hmem with hmem | rfl
    · exact h.root_not_mem aliasName hmem
    · exact s.freshAlias_ne_root plan (path ++ [segment])
  · intro step hmem
    rcases List.mem_append.mp hmem with hmem | hmem
    · exact h.walk_target step hmem
    · -- The new join goes one navigation further than the place that it starts from.
      rw [List.mem_singleton.mp hmem]
      show s.metadata.walk? s.root (path ++ [segment]) = some target
      rw [Metadata.walk?_concat, h.walk_place hplace]
      exact hstep

/-- Along a walk, sound joins stay sound. -/
theorem grows (h : s.Sound plan) (hgrows : ReflTransGen s.Adds plan plan') : s.Sound plan' := by
  induction hgrows with
  | refl => exact h
  | tail _ hadds ih => exact ih.adds hadds

/-- Looking the alias of a join up finds this join. -/
theorem find?_alias (h : s.Sound plan) {step : Join} (hmem : step ∈ plan.steps) :
    plan.steps.find? (fun other => some other.aliasName == some step.aliasName) = some step := by
  have hnodup : (plan.steps.map fun step => some step.aliasName).Nodup := by
    have := h.aliases_nodup.map fun _ _ heq => Option.some.inj heq
    rwa [JoinPlan.aliases, List.map_map] at this
  exact find?_key_eq_some (fun step => some step.aliasName) hnodup hmem

/-- The alias of a place qualifies the columns of its path. -/
theorem navigation?_place (h : s.Sound plan) {path : List String} {place : Place}
    (hplace : s.place? plan path = some place) :
    plan.navigation? s.config.rootAlias? place.alias? = some path := by
  unfold place? at hplace
  unfold JoinPlan.navigation?
  split at hplace
  next hroot =>
    cases hplace
    rw [hroot]
    exact if_pos rfl
  next =>
    obtain ⟨step, hget, rfl⟩ := Option.map_eq_some_iff.mp hplace
    obtain ⟨hmem, rfl⟩ := JoinPlan.get?_eq_some hget
    have hroot := h.root_not_mem step.aliasName (List.mem_map_of_mem hmem)
    rw [if_neg hroot.symm, h.find?_alias hmem]
    rfl

end Sound

end Scope

end EntityQuery
