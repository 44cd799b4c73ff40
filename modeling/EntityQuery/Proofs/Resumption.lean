import EntityQuery.Proofs.Sessions
import Mathlib.Order.Bounds.Basic

/-!
# Sessions that are gone on with

A session searches for the name of a parameter from where the last search ended. Joins and
parameters are stored without that number, so a session that goes on from them searches from zero
again. The invariant that makes up for the loss is `Binding.IsTight`: every candidate before the
number that the search begins with is taken. The next name is then that of the least free number
(`IsTight.isLeast_nextNumber`), from whichever number the search begins.

`Binding.Continues` relates bindings that give the same names from there on, and `Session.Continues`
such sessions. A computation `Mirrors` a relation when it has the same result, or fails with the
same error, in related states, and leaves related states behind. Whatever only gathers mirrors
`Session.Continues` (`Gathers.mirrors`): it is shown of binding a value, and of joins, which do not
depend on the binding.
-/

namespace EntityQuery

/-! ## Runs that mirror each other -/

section

variable {ε σ α β : Type} {S : σ → σ → Prop} {x : EStateM ε σ α} {s s' t : σ}

/-- Two runs have the same result or the same error, and end in related states. -/
inductive SameResult (S : σ → σ → Prop) : EStateM.Result ε σ α → EStateM.Result ε σ α → Prop
  | ok (a : α) {s t : σ} (h : S s t) : SameResult S (.ok a s) (.ok a t)
  | error (e : ε) {s t : σ} (h : S s t) : SameResult S (.error e s) (.error e t)

/-- In related states, a computation has the same result or the same error. -/
def Mirrors (S : σ → σ → Prop) (x : EStateM ε σ α) : Prop :=
  ∀ s t, S s t → SameResult S (x s) (x t)

namespace Mirrors

/-- Returning a result does not depend on the state. -/
theorem pure (a : α) : Mirrors S (Pure.pure a : EStateM ε σ α) := fun _ _ h => .ok a h

/-- Throwing does not depend on the state. -/
theorem throw (e : ε) : Mirrors S (throwThe ε e : EStateM ε σ α) := fun _ _ h => .error e h

/-- A sequence mirrors a relation when its parts do. -/
theorem bind {f : α → EStateM ε σ β} (hx : Mirrors S x) (hf : ∀ a, Mirrors S (f a)) :
    Mirrors S (x >>= f) := by
  intro s t hst
  have hresult := hx s t hst
  show SameResult S (EStateM.bind x f s) (EStateM.bind x f t)
  unfold EStateM.bind
  generalize x s = left at hresult
  generalize x t = right at hresult
  cases hresult with
  | ok a h => exact hf a _ _ h
  | error e h => exact .error e h

/-- A run that succeeds does so in a related state, with the same result. -/
theorem ok (h : Mirrors S x) (hst : S s t) {a : α} (hx : x s = .ok a s') :
    ∃ t', x t = .ok a t' ∧ S s' t' := by
  have hresult := h s t hst
  rw [hx] at hresult
  generalize hy : x t = right at hresult
  cases hresult with
  | ok _ hst' => exact ⟨_, rfl, hst'⟩

/-- A run that fails does so in a related state, with the same error. -/
theorem error (h : Mirrors S x) (hst : S s t) {e : ε} (hx : x s = .error e s') :
    ∃ t', x t = .error e t' ∧ S s' t' := by
  have hresult := h s t hst
  rw [hx] at hresult
  generalize hy : x t = right at hresult
  cases hresult with
  | error _ hst' => exact ⟨_, rfl, hst'⟩

end Mirrors

/-- What is put together from parts that mirror a relation mirrors it. -/
theorem Composed.mirrors {P : (α : Type) → EStateM ε σ α → Prop} (h : Composed P α x)
    (hparts : ∀ α (x : EStateM ε σ α), P α x → Mirrors S x) : Mirrors S x := by
  induction h with
  | part h => exact hparts _ _ h
  | pure a => exact Mirrors.pure a
  | throw e => exact Mirrors.throw e
  | bind _ _ ihx ihf => exact ihx.bind ihf

end

/-! ## Bindings -/

namespace Binding

variable {c : Config} {b b' : Binding}

/-- Every candidate before the number that the search begins with is taken. -/
def IsTight (c : Config) (b : Binding) : Prop :=
  ∀ n < b.counter, isTaken c b.parameters (name c n) = true

/-- A search from zero passes over nothing. -/
theorem isTight_resume (c : Config) (ps : Parameters) : (resume ps).IsTight c :=
  fun n hn => absurd hn (Nat.not_lt_zero n)

/-- A tight binding has every candidate taken before the one that it gives next. -/
theorem IsTight.isTaken_of_lt (h : b.IsTight c) {n : Nat} (hn : n < b.nextNumber c) :
    isTaken c b.parameters (name c n) = true := by
  rcases Nat.lt_or_ge n b.counter with hbefore | hafter
  · exact h n hbefore
  · exact isTaken_of_lt_firstFree hafter hn

/-- The next name of a tight binding is that of the least free number. -/
theorem IsTight.isLeast_nextNumber (h : b.IsTight c) :
    IsLeast {n | isTaken c b.parameters (name c n) = false} (b.nextNumber c) := by
  refine ⟨not_isTaken_nextName c b, fun n hfree => ?_⟩
  by_contra! hlt
  have htaken := h.isTaken_of_lt hlt
  rw [Set.mem_ofPred_eq, htaken] at hfree
  cases hfree

/-- A name that was taken is taken when one more value is bound. -/
theorem isTaken_push (value : Value) {name : String} (h : isTaken c b.parameters name = true) :
    isTaken c (b.push c value).parameters name = true := by
  rw [isTaken_iff] at h ⊢
  rw [names_push]
  exact h.imp_right (List.mem_append_left _)

/-- A tight binding stays tight when a value is bound: the search passes over taken candidates, and
the one that it ends at is taken now. -/
theorem IsTight.push (h : b.IsTight c) (value : Value) : (b.push c value).IsTight c := by
  intro n hn
  rcases Nat.eq_or_lt_of_le (Nat.le_of_lt_succ hn) with rfl | hlt
  · rw [isTaken_iff, names_push]
    exact .inr (List.mem_append_right _ (List.mem_singleton_self _))
  · exact isTaken_push value (h.isTaken_of_lt hlt)

/-- Two bindings give the same names from here on: they have the same parameters, and neither
search begins behind a free candidate. -/
structure Continues (c : Config) (b b' : Binding) : Prop where
  /-- The same parameters are bound. -/
  parameters : b.parameters = b'.parameters
  /-- The first search begins before every free candidate. -/
  left : b.IsTight c
  /-- So does the second one. -/
  right : b'.IsTight c

/-- Bindings that go on alike give the next parameter the same number. -/
theorem Continues.nextNumber (h : b.Continues c b') : b.nextNumber c = b'.nextNumber c := by
  have hleast := h.left.isLeast_nextNumber
  rw [h.parameters] at hleast
  exact hleast.unique h.right.isLeast_nextNumber

/-- Bindings that go on alike do so when each binds the same value. -/
theorem Continues.push (h : b.Continues c b') (value : Value) :
    (b.push c value).Continues c (b'.push c value) where
  parameters := by
    unfold Binding.push
    rw [h.nextNumber, h.parameters]
  left := h.left.push value
  right := h.right.push value

/-- Binding values has the same result in bindings that go on alike. -/
theorem Binds.mirrors {α : Type} {x : Run α} (h : Binds c x) : Mirrors (Continues c) x := by
  refine Composed.mirrors h ?_
  rintro _ _ ⟨value⟩ b b' hb
  -- Both bind under the name of the least free number.
  have hname : b'.nextName c = b.nextName c := by
    unfold nextName
    rw [hb.nextNumber]
  show SameResult (Continues c) (.ok (Scalar.parameter (b.nextName c)) (b.push c value))
    (.ok (Scalar.parameter (b'.nextName c)) (b'.push c value))
  rw [hname]
  exact .ok _ (hb.push value)

end Binding

/-! ## Sessions -/

namespace Session

variable {c : Config} {t t' : Session}

/-- Two sessions go on alike: they have the same joins, and their bindings give the same names. -/
structure Continues (c : Config) (t t' : Session) : Prop where
  /-- The same joins are there. -/
  joins : t.joins = t'.joins
  /-- The same names are given. -/
  binding : t.binding.Continues c t'.binding

/-- A computation on the joins does not see the binding. -/
theorem onJoins_mirrors {α : Type} (x : JoinPlan.Run α) : Mirrors (Continues c) (onJoins x) := by
  intro t t' h
  unfold onJoins
  rw [h.joins]
  cases x t'.joins with
  | ok a joins => exact .ok a ⟨rfl, h.binding⟩
  | error e joins => exact .error e ⟨rfl, h.binding⟩

/-- Binding values has the same result in sessions that go on alike. -/
theorem onBinding_mirrors {α : Type} {x : Binding.Run α} (hx : Binding.Binds c x) :
    Mirrors (Continues c) (onBinding x) := by
  intro t t' h
  have hresult : SameResult (Binding.Continues c) (x t.binding) (x t'.binding) :=
    hx.mirrors _ _ h.binding
  unfold onBinding
  generalize x t.binding = left at hresult
  generalize x t'.binding = right at hresult
  cases hresult with
  | ok a hbinding => exact .ok a ⟨h.joins, hbinding⟩
  | error e hbinding => exact .error e ⟨h.joins, hbinding⟩

/-- Gathering has the same result in sessions that go on alike, which then go on alike. -/
theorem Gathers.mirrors {s : Scope} {α : Type} {x : Run α} (h : Gathers s x) :
    Mirrors (Continues s.config) x := by
  refine Composed.mirrors h fun α x hpart => ?_
  cases hpart with
  | joins => exact onJoins_mirrors _
  | binding hbinds => exact onBinding_mirrors hbinds

/-- What is stored of a session goes on like any session that it goes on like. -/
theorem Continues.resume (h : t.Continues c t') :
    (Session.resume t.joins t.parameters).Continues c t' where
  joins := h.joins
  binding := ⟨h.binding.parameters, Binding.isTight_resume c _, h.binding.right⟩

end Session

end EntityQuery
