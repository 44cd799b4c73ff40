import EntityQuery.Plan.Compilation
import Mathlib.Logic.Relation

/-!
# Runs of computations

Planning is written in computations that carry a state and may fail, and that leave what they did
to the state behind when they fail. Two views of a run are taken here. A successful run is taken
apart: `bind_eq_ok` splits a sequence into its two parts, and `onJoins_eq_ok` and `onBinding_eq_ok`
say that a part of a session is run on its own. Any run, successful or not, is seen as a walk:
`Moves G x` says that `x` goes from a state to another one in steps of the relation `G`, and a
sequence of computations that do so does so. Computations without a state are taken apart likewise
(`except_bind_eq_ok`).

`Composed P x` says what a computation is put together from: parts of the kind `P`, and nothing else
that looks at the state. What holds of the parts and is kept by returning, throwing and sequences
then holds of the whole, so it is shown of the parts alone (`Composed.moves`).
-/

open Relation (ReflTransGen)

namespace EntityQuery

variable {ε σ α β : Type}

/-! ## Successful runs -/

/-- A sequence succeeds when its first part does, and its second part does from there. -/
theorem bind_eq_ok {x : EStateM ε σ α} {f : α → EStateM ε σ β} {s t : σ} {b : β} :
    (x >>= f) s = .ok b t ↔ ∃ a r, x s = .ok a r ∧ f a r = .ok b t := by
  show EStateM.bind x f s = .ok b t ↔ _
  unfold EStateM.bind
  cases hx : x s with
  | ok a r =>
    constructor
    · intro h
      exact ⟨a, r, rfl, h⟩
    · rintro ⟨a', r', h, hf⟩
      cases h
      exact hf
  | error e r => simp

/-- A sequence fails when its first part does, or its second part does from there. -/
theorem bind_eq_error {x : EStateM ε σ α} {f : α → EStateM ε σ β} {s t : σ} {e : ε} :
    (x >>= f) s = .error e t ↔ x s = .error e t ∨ ∃ a r, x s = .ok a r ∧ f a r = .error e t := by
  show EStateM.bind x f s = .error e t ↔ _
  unfold EStateM.bind
  cases hx : x s with
  | ok a r =>
    constructor
    · intro h
      exact .inr ⟨a, r, rfl, h⟩
    · rintro (h | ⟨a', r', h, hf⟩)
      · cases h
      · cases h
        exact hf
  | error e' r => simp

/-- A result that is returned is the result, in the same state. -/
theorem pure_eq_ok {a b : α} {s t : σ} :
    (pure a : EStateM ε σ α) s = .ok b t ↔ b = a ∧ t = s := by
  show EStateM.Result.ok a s = .ok b t ↔ _
  rw [EStateM.Result.ok.injEq, eq_comm, @eq_comm _ s]

/-- A computation that throws does not succeed. -/
theorem throw_ne_ok {e : ε} {s t : σ} {b : α} : (throw e : EStateM ε σ α) s ≠ .ok b t := by
  intro h
  cases h

/-- A computation on the joins of a session succeeds when it does on its own; the parameters stay
as they are. -/
theorem onJoins_eq_ok {x : JoinPlan.Run α} {s t : Session} {a : α} :
    Session.onJoins x s = .ok a t ↔ ∃ joins, x s.joins = .ok a joins ∧ t = { s with joins } := by
  unfold Session.onJoins
  cases hx : x s.joins with
  | ok a' joins =>
    constructor
    · intro h
      cases h
      exact ⟨joins, rfl, rfl⟩
    · rintro ⟨joins', h, rfl⟩
      cases h
      rfl
  | error e joins => simp

/-- A computation on the parameters of a session succeeds when it does on its own; the joins stay
as they are. -/
theorem onBinding_eq_ok {x : Binding.Run α} {s t : Session} {a : α} :
    Session.onBinding x s = .ok a t ↔
      ∃ binding, x s.binding = .ok a binding ∧ t = { s with binding } := by
  unfold Session.onBinding
  cases hx : x s.binding with
  | ok a' binding =>
    constructor
    · intro h
      cases h
      exact ⟨binding, rfl, rfl⟩
    · rintro ⟨binding', h, rfl⟩
      cases h
      rfl
  | error e binding => simp

/-- Whether a run succeeds. -/
def succeeds : EStateM.Result ε σ α → Bool
  | .ok _ _ => true
  | .error _ _ => false

/-- What succeeds has a result. -/
theorem exists_of_succeeds {r : EStateM.Result ε σ α} (h : succeeds r = true) :
    ∃ a s, r = .ok a s := by
  cases r with
  | ok a s => exact ⟨a, s, rfl⟩
  | error e s => cases h

/-! ## Results without a state -/

/-- A sequence that may fail succeeds when its first part does, and its second part does with the
result. -/
theorem except_bind_eq_ok {x : Except ε α} {f : α → Except ε β} {b : β} :
    (x >>= f) = .ok b ↔ ∃ a, x = .ok a ∧ f a = .ok b := by
  cases x with
  | ok a =>
    constructor
    · intro h
      exact ⟨a, rfl, h⟩
    · rintro ⟨a', h, hf⟩
      cases h
      exact hf
  | error e =>
    constructor
    · intro h
      cases h
    · rintro ⟨a, h, -⟩
      cases h

/-- A sequence that may fail fails when its first part does, or its second part does with the
result. -/
theorem except_bind_eq_error {x : Except ε α} {f : α → Except ε β} {e : ε} :
    (x >>= f) = .error e ↔ x = .error e ∨ ∃ a, x = .ok a ∧ f a = .error e := by
  cases x with
  | ok a =>
    constructor
    · intro h
      exact .inr ⟨a, rfl, h⟩
    · rintro (h | ⟨a', h, hf⟩)
      · cases h
      · cases h
        exact hf
  | error e' =>
    constructor
    · intro h
      cases h
      exact .inl rfl
    · rintro (h | ⟨a, h, -⟩)
      · cases h
        rfl
      · cases h

/-- What is no error is a result. -/
theorem exists_of_isOk {x : Except ε α} (h : x.isOk = true) : ∃ a, x = .ok a := by
  cases x with
  | ok a => exact ⟨a, rfl⟩
  | error e => cases h

/-- A result that passes a test is there, and passes the test. -/
theorem exists_of_any {x : Except ε α} {p : α → Bool} (h : x.toOption.any p = true) :
    ∃ a, x = .ok a ∧ p a = true := by
  cases x with
  | ok a => exact ⟨a, rfl, h⟩
  | error e => cases h

/-- What is no result is an error. -/
theorem exists_of_not_isOk {x : Except ε α} (h : x.isOk = false) : ∃ e, x = .error e := by
  cases x with
  | ok a => cases h
  | error e => exact ⟨e, rfl⟩

/-- What is made of a result is there when the result is. -/
theorem except_map_eq_ok {x : Except ε α} {f : α → β} {b : β} :
    x.map f = .ok b ↔ ∃ a, x = .ok a ∧ f a = b := by
  cases x with
  | error e =>
    constructor
    · intro h
      cases h
    · rintro ⟨a, h, -⟩
      cases h
  | ok a =>
    constructor
    · intro h
      cases h
      exact ⟨a, rfl, rfl⟩
    · rintro ⟨_, h, rfl⟩
      cases h
      rfl

/-- A computation with its errors renamed succeeds when it does. -/
theorem except_mapError_eq_ok {ε' : Type} {x : Except ε α} {f : ε → ε'} {a : α} :
    x.mapError f = .ok a ↔ x = .ok a := by
  cases x with
  | error e =>
    constructor
    · intro h
      cases h
    · intro h
      cases h
  | ok b =>
    constructor
    · intro h
      cases h
      rfl
    · intro h
      cases h
      rfl

/-! ## Runs as walks -/

/-- The state that a run ends in. -/
def finalState : EStateM.Result ε σ α → σ
  | .ok _ s => s
  | .error _ s => s

/-- What a run comes to, without the state that it ends in. -/
def outcome : EStateM.Result ε σ α → Except ε α
  | .ok a _ => .ok a
  | .error e _ => .error e

/-- Every run of a computation, also one that fails, goes in steps of a relation. -/
def Moves (G : σ → σ → Prop) (x : EStateM ε σ α) : Prop :=
  ∀ s, ReflTransGen G s (finalState (x s))

namespace Moves

variable {G : σ → σ → Prop} {x : EStateM ε σ α}

/-- Where a successful run ends. -/
theorem ok (h : Moves G x) {s t : σ} {a : α} (hx : x s = .ok a t) : ReflTransGen G s t := by
  have hs := h s
  rw [hx] at hs
  exact hs

/-- A computation that leaves the state alone goes nowhere. -/
theorem of_state_eq (h : ∀ s, finalState (x s) = s) : Moves G x := by
  intro s
  rw [h s]

/-- Returning a result goes nowhere. -/
theorem pure (a : α) : Moves G (Pure.pure a : EStateM ε σ α) := of_state_eq fun _ => rfl

/-- Throwing goes nowhere. -/
theorem throw (e : ε) : Moves G (throwThe ε e : EStateM ε σ α) := of_state_eq fun _ => rfl

/-- A sequence goes where its parts go. -/
theorem bind {f : α → EStateM ε σ β} (hx : Moves G x) (hf : ∀ a, Moves G (f a)) :
    Moves G (x >>= f) := by
  intro s
  have hs := hx s
  show ReflTransGen G s (finalState (EStateM.bind x f s))
  unfold EStateM.bind
  cases h : x s with
  | ok a r =>
    rw [h] at hs
    exact hs.trans (hf a r)
  | error e r =>
    rw [h] at hs
    exact hs

end Moves

/-! ## What computations are put together from -/

/-- A computation that is put together from parts of a kind, by returning results, throwing errors
and sequences. -/
inductive Composed (P : (α : Type) → EStateM ε σ α → Prop) : (α : Type) → EStateM ε σ α → Prop
  | part {α : Type} {x : EStateM ε σ α} (h : P α x) : Composed P α x
  | pure {α : Type} (a : α) : Composed P α (Pure.pure a)
  | throw {α : Type} (e : ε) : Composed P α (throwThe ε e)
  | bind {α β : Type} {x : EStateM ε σ α} {f : α → EStateM ε σ β} (hx : Composed P α x)
      (hf : ∀ a, Composed P β (f a)) : Composed P β (x >>= f)

/-- What is put together from parts that go in steps of a relation goes in such steps. -/
theorem Composed.moves {P : (α : Type) → EStateM ε σ α → Prop} {G : σ → σ → Prop}
    {x : EStateM ε σ α} (h : Composed P α x)
    (hparts : ∀ α (x : EStateM ε σ α), P α x → Moves G x) : Moves G x := by
  induction h with
  | part h => exact hparts _ _ h
  | pure a => exact Moves.pure a
  | throw e => exact Moves.throw e
  | bind _ _ ihx ihf => exact ihx.bind ihf

end EntityQuery
