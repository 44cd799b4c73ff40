import EntityQuery.Proofs.Binding
import EntityQuery.Proofs.Joins

/-!
# Searches for names without a bound

Planning looks past as many taken names as there can be (`firstFree`). The same names come out of a
search that counts up for as long as it takes. `NameSearch.run` is that search; it would return
nothing if it went on forever. It ends at the first free candidate (`NameSearch.run_eq_some`), which
is where the bounded search ends when that has found one (`NameSearch.run_eq_firstFree`), and it has
when the candidates differ, for the taken names cannot take one candidate more than there are.

An alias is searched for in two stages, the plain one first and then those with a number from two
on, and would be the plain one all the same if no number gave a free one (`Scope.aliasBySearch`).
As both stages go through the one row of candidates, and the numbers are written differently
whatever stands before them, that case does not come up (`name_searches_end`).
-/

namespace EntityQuery

/-- What a search for a free name looks at. -/
structure NameSearch where
  /-- Whether a name is taken. -/
  isTaken : String → Bool
  /-- The candidate at a position. -/
  candidate : Nat → String

namespace NameSearch

/-- The position of the first free candidate from a position on, for which the candidates are looked
at one after the other without a bound. -/
def run (s : NameSearch) (position : Nat) : Option Nat :=
  if s.isTaken (s.candidate position) then s |>.run (position + 1) else some position
partial_fixpoint

variable {s : NameSearch} {start n : Nat}

/-- A free candidate ends the search. -/
theorem run_of_free (h : s.isTaken (s.candidate n) = false) : s.run n = some n := by
  rw [run, h]
  rfl

/-- A taken candidate is passed over. -/
theorem run_of_taken (h : s.isTaken (s.candidate n) = true) : s.run n = s.run (n + 1) := by
  rw [run, if_pos h]

/-- The search ends at a free candidate when all those before it are taken. -/
theorem run_eq_some (hle : start ≤ n) (hfree : s.isTaken (s.candidate n) = false)
    (htaken : ∀ k, start ≤ k → k < n → s.isTaken (s.candidate k) = true) :
    s.run start = some n := by
  -- The induction is on the candidates before it, from the last one back to the first.
  induction hle using Nat.decreasingInduction with
  | self => exact run_of_free hfree
  | of_succ k hlt ih =>
    have hfirst := htaken k (Nat.le_refl k) hlt
    rw [run_of_taken hfirst]
    exact ih fun i hi => htaken i (Nat.le_of_succ_le hi)

/-- Where the bounded search stops at a free candidate, the search without a bound ends there. -/
theorem run_eq_firstFree {taken : Nat}
    (hfree : s.isTaken (s.candidate (firstFree s.isTaken s.candidate taken start)) = false) :
    s.run start = some (firstFree s.isTaken s.candidate taken start) :=
  run_eq_some (le_firstFree taken start) hfree
    fun _ hstart hlt => isTaken_of_lt_firstFree hstart hlt

end NameSearch

namespace Scope

/-- The search for an alias among the candidates that have a number behind the plain one. -/
def numberedAliases (s : Scope) (plan : JoinPlan) (path : List String) : NameSearch :=
  ⟨s.isAliasTaken plan, fun n => s.aliasCandidate path 0 ++ toString n⟩

/-- The alias of a path by the search without a bound: the plain candidate where it is free, else
the first free one with a number from two on, and the plain one again if there is none. -/
def aliasBySearch (s : Scope) (plan : JoinPlan) (path : List String) : String :=
  let base := s.aliasCandidate path 0
  if s.isAliasTaken plan base then
    ((s.numberedAliases plan path).run 2).elim base fun n => base ++ toString n
  else base

/-- The candidates after the plain one have the numbers from two on behind it. -/
theorem aliasCandidate_succ (s : Scope) (path : List String) (n : Nat) :
    s.aliasCandidate path (n + 1) = s.aliasCandidate path 0 ++ toString (n + 2) := rfl

/-- Where the plain alias is taken, the numbers are counted up to that of the new alias, which is at
most the number of joins and two. -/
theorem search_alias (s : Scope) (plan : JoinPlan) (path : List String)
    (htaken : s.isAliasTaken plan (s.aliasCandidate path 0) = true) :
    ∃ n, (s.numberedAliases plan path).run 2 = some n ∧ n ≤ plan.steps.length + 2 ∧
      s.freshAlias plan path = s.aliasCandidate path 0 ++ toString n := by
  have hfree := s.not_isAliasTaken_freshAlias plan path
  have hle : firstFree (s.isAliasTaken plan) (s.aliasCandidate path) (plan.steps.length + 1) 0 ≤
      0 + (plan.steps.length + 1) := firstFree_le _ _
  have hpassed : ∀ k, k < firstFree (s.isAliasTaken plan) (s.aliasCandidate path)
      (plan.steps.length + 1) 0 → s.isAliasTaken plan (s.aliasCandidate path k) = true :=
    fun k hlt => isTaken_of_lt_firstFree (Nat.zero_le k) hlt
  unfold freshAlias at hfree ⊢
  generalize firstFree (s.isAliasTaken plan) (s.aliasCandidate path) (plan.steps.length + 1) 0 =
    position at hfree hle hpassed ⊢
  cases position with
  | zero =>
    -- The plain alias is taken, so the search does not stop at it.
    rw [htaken] at hfree
    cases hfree
  | succ p =>
    rw [aliasCandidate_succ] at hfree ⊢
    refine ⟨p + 2, NameSearch.run_eq_some (Nat.le_add_left 2 p) hfree ?_, by omega, rfl⟩
    intro k hstart hlt
    obtain ⟨k, rfl⟩ := Nat.exists_eq_add_of_le' hstart
    exact hpassed (k + 1) (by omega)

/-- The search without a bound gives the alias that a new join is given. -/
theorem aliasBySearch_eq (s : Scope) (plan : JoinPlan) (path : List String) :
    s.aliasBySearch plan path = s.freshAlias plan path := by
  unfold aliasBySearch
  dsimp only
  split
  next htaken =>
    obtain ⟨n, hsearch, -, halias⟩ := s.search_alias plan path htaken
    rw [hsearch, halias]
    rfl
  next hfree =>
    unfold freshAlias firstFree
    rw [if_neg hfree]

end Scope

namespace Binding

/-- The search for the name of the next parameter. -/
def numberedNames (c : Config) (b : Binding) : NameSearch := ⟨isTaken c b.parameters, name c⟩

/-- The number of the next parameter is found by counting up from the counter without a bound, past
as many candidates as there are names that are reserved or bound at most. -/
theorem search_name (c : Config) (b : Binding) :
    (b.numberedNames c).run b.counter = some (b.nextNumber c) ∧
      b.nextNumber c ≤ b.counter + (c.reservedParameters.length + b.parameters.size) :=
  ⟨NameSearch.run_eq_firstFree (not_isTaken_nextName c b), firstFree_le _ _⟩

end Binding

/-- Searches for names that count up without a bound end, with a free name, whatever stands before
and behind the numbers and whatever is taken. The search for an alias looks at the plain candidate
and, where that is taken, at the numbers from two up to one that is at most the number of joins and
two; it never falls back to the plain one, and the alias is neither the root's nor a join's. The
search for the name of a parameter looks at one candidate more than there are names that are
reserved or bound at most; the name is neither, the parameter is bound under it, and the counter
goes on behind it. -/
theorem name_searches_end :
    (∀ (s : Scope) (plan : JoinPlan) (path : List String),
      let base := s.aliasCandidate path 0
      let aliasName := s.aliasBySearch plan path
      (s.isAliasTaken plan base = true →
        ∃ n, (s.numberedAliases plan path).run 2 = some n ∧
          n ≤ plan.steps.length + 2 ∧ aliasName = base ++ toString n) ∧
      s.freshAlias plan path = aliasName ∧ s.config.rootAlias? ≠ some aliasName ∧
        aliasName ∉ plan.aliases) ∧
    ∀ (c : Config) (b : Binding) (value : Value),
      ∃ n, (b.numberedNames c).run b.counter = some n ∧
        n + 1 - b.counter ≤ c.reservedParameters.length + b.parameters.size + 1 ∧
        Binding.name c n ∉ c.reservedParameters ∧ Binding.name c n ∉ b.parameters.names ∧
        Binding.bindValue c value b = .ok (.parameter (Binding.name c n)) (b.push c value) ∧
        (b.push c value).counter = n + 1 := by
  constructor
  · intro s plan path base aliasName
    have hsame : aliasName = s.freshAlias plan path := s.aliasBySearch_eq plan path
    rw [hsame]
    exact ⟨s.search_alias plan path, rfl, s.freshAlias_ne_root plan path,
      s.freshAlias_not_mem plan path⟩
  · intro c b value
    obtain ⟨hsearch, hle⟩ := b.search_name c
    refine ⟨b.nextNumber c, hsearch, by omega, Binding.nextName_not_reserved c b,
      Binding.nextName_not_mem c b, ?_, rfl⟩
    exact Binding.bindValue_ok.mpr ⟨rfl, rfl⟩

end EntityQuery
