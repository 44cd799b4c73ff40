import EntityQuery.Proofs.FreeName
import EntityQuery.Proofs.Run

/-!
# Bound parameters

What binding a literal does. The name that is given is neither bound nor reserved
(`nextName_not_mem`, `nextName_not_reserved`), so binding appends one entry and changes none
(`entries_push`), and `bind_ok` says all that a successful bind does. Everything else follows
from `Adds`, the relation of a binding to the binding with one more parameter: along any walk of
such steps entries are only appended (`entries_grow`), a name that is bound keeps its value
(`get?_of_grows`), and names that differ go on to differ (`nodup_names`). A computation takes such a
walk when it goes over the binding by binding values and in no other way (`Binds.moves`).
-/

open Relation (ReflTransGen)

namespace EntityQuery

namespace Parameters

/-- A name is bound when it is among the names. -/
theorem contains_eq_true_iff {ps : Parameters} {name : String} :
    ps.contains name = true ↔ name ∈ ps.names := by
  simp [contains, names]

/-- Binding a name that is not bound appends an entry. -/
theorem entries_insert {ps : Parameters} {name : String} {value : Value} (h : name ∉ ps.names) :
    (ps.insert name value).entries = ps.entries ++ [(name, value)] := by
  rw [← contains_eq_true_iff] at h
  unfold insert
  rw [if_neg h]

/-- Entries that are appended do not change the value of a bound name. -/
theorem get?_of_isPrefix {ps ps' : Parameters} (h : ps.entries <+: ps'.entries) {name : String}
    {value : Value} (hget : ps.get? name = some value) : ps'.get? name = some value := by
  obtain ⟨rest, hrest⟩ := h
  unfold get? at hget ⊢
  obtain ⟨entry, hfind, rfl⟩ := Option.map_eq_some_iff.mp hget
  rw [← hrest, List.find?_append, hfind]
  rfl

/-- The value of a name that is bound last, after names that differ from it. -/
theorem get?_append {ps ps' : Parameters} {name : String} {value : Value}
    (h : ps'.entries = ps.entries ++ [(name, value)]) (hname : name ∉ ps.names) :
    ps'.get? name = some value := by
  have hfind : ps.entries.find? (·.1 == name) = none := by
    rw [List.find?_eq_none]
    intro entry hentry heq
    rw [beq_iff_eq] at heq
    exact hname (heq ▸ List.mem_map_of_mem hentry)
  unfold get?
  rw [h, List.find?_append, hfind]
  simp

end Parameters

namespace Value

/-- What a text is read as: a point in time, an identifier or binary data where these are declared,
or the text itself. -/
theorem ofText_ok {text : String} {declared : EdmType} {v : Value}
    (h : ofText text declared = some v) :
    (∃ instant, v = .dateTime instant) ∨ (declared = .guid ∧ ∃ guid, v = .guid guid) ∨
      (declared = .binary ∧ ∃ bytes, v = .bytes bytes) ∨ v = .string text := by
  unfold ofText at h
  split at h
  · obtain ⟨instant, -, rfl⟩ := Option.map_eq_some_iff.mp h
    exact .inl ⟨instant, rfl⟩
  · obtain ⟨instant, -, rfl⟩ := Option.map_eq_some_iff.mp h
    exact .inl ⟨instant, rfl⟩
  · obtain ⟨guid, -, rfl⟩ := Option.map_eq_some_iff.mp h
    exact .inr (.inl ⟨rfl, guid, rfl⟩)
  · obtain ⟨bytes, -, rfl⟩ := Option.map_eq_some_iff.mp h
    exact .inr (.inr (.inl ⟨rfl, bytes, rfl⟩))
  · cases h
    exact .inr (.inr (.inr rfl))

/-- A normal form is the value itself, or what a text is read as. -/
theorem normalize_ok {v w : Value} {declared : EdmType} (h : v.normalize declared = .ok w) :
    w = v ∨ ∃ text, v = .string text ∧ ofText text declared = some w := by
  unfold normalize at h
  split at h
  next text =>
    split at h
    next read hread =>
      cases h
      exact .inr ⟨text, rfl, hread⟩
    next => cases h
  next =>
    cases h
    exact .inl rfl

/-- A value that has no normal form is a text that is none of its declared type. -/
theorem normalize_error {v : Value} {declared : EdmType} {e : PlanError}
    (h : v.normalize declared = .error e) :
    ∃ text, v = .string text ∧ e = .invalidLiteral declared text := by
  unfold normalize at h
  split at h
  next text =>
    split at h
    next => cases h
    next =>
      cases h
      exact ⟨text, rfl, rfl⟩
  next => cases h

/-- A text is the value that it is read as for its type. -/
theorem normalize_string {text : String} {declared : EdmType} {v : Value} :
    normalize (.string text) declared = .ok v ↔ ofText text declared = some v := by
  unfold normalize
  dsimp only
  split
  next w hw => rw [hw, Except.ok.injEq, Option.some.injEq]
  next hnone =>
    rw [hnone]
    exact ⟨nofun, nofun⟩

/-- A text that is not read for its type is an invalid literal. -/
theorem normalize_string_error {text : String} {declared : EdmType} :
    normalize (.string text) declared = .error (.invalidLiteral declared text) ↔
      ofText text declared = none := by
  unfold normalize
  dsimp only
  split
  next w hw =>
    rw [hw]
    exact ⟨nofun, nofun⟩
  next hnone => exact ⟨fun _ => hnone, fun _ => rfl⟩

end Value

namespace Binding

variable {c : Config} {b b' : Binding}

/-- The name that the next parameter is given. -/
def nextName (c : Config) (b : Binding) : String := name c (b.nextNumber c)

/-- Candidates with different numbers differ. -/
theorem name_injective (c : Config) : Function.Injective (name c) := by
  intro m n h
  unfold name at h
  rw [String.append_right_inj] at h
  exact toString_injective h

/-- A name is taken when it is reserved or bound. -/
theorem isTaken_iff {ps : Parameters} {name : String} :
    isTaken c ps name = true ↔ name ∈ c.reservedParameters ∨ name ∈ ps.names := by
  unfold isTaken
  rw [Bool.or_eq_true, List.contains_iff_mem, Parameters.contains_eq_true_iff]

/-- The name that the next parameter is given is free. -/
theorem not_isTaken_nextName (c : Config) (b : Binding) :
    isTaken c b.parameters (b.nextName c) = false := by
  unfold nextName nextNumber
  apply not_isTaken_firstFree (name_injective c)
    (c.reservedParameters ++ b.parameters.names)
  · intro name h
    exact List.mem_append.mpr (isTaken_iff.mp h)
  · rw [List.length_append]
    unfold Parameters.names Parameters.size
    rw [List.length_map]

/-- The name that the next parameter is given is not bound. -/
theorem nextName_not_mem (c : Config) (b : Binding) : b.nextName c ∉ b.parameters.names := by
  intro hmem
  have htaken : isTaken c b.parameters (b.nextName c) = true := isTaken_iff.mpr (.inr hmem)
  rw [not_isTaken_nextName c b] at htaken
  cases htaken

/-- The name that the next parameter is given is not reserved. -/
theorem nextName_not_reserved (c : Config) (b : Binding) :
    b.nextName c ∉ c.reservedParameters := by
  intro hmem
  have htaken : isTaken c b.parameters (b.nextName c) = true := isTaken_iff.mpr (.inl hmem)
  rw [not_isTaken_nextName c b] at htaken
  cases htaken

/-- Binding a value appends one entry, under the next name. -/
theorem entries_push (c : Config) (b : Binding) (value : Value) :
    (b.push c value).parameters.entries = b.parameters.entries ++ [(b.nextName c, value)] :=
  Parameters.entries_insert (nextName_not_mem c b)

/-- Binding a value appends one name. -/
theorem names_push (c : Config) (b : Binding) (value : Value) :
    (b.push c value).parameters.names = b.parameters.names ++ [b.nextName c] := by
  unfold Parameters.names
  rw [entries_push, List.map_append]
  rfl

/-- A value that was bound just now is found under its name. -/
theorem get?_push (c : Config) (b : Binding) (value : Value) :
    (b.push c value).parameters.get? (b.nextName c) = some value :=
  Parameters.get?_append (entries_push c b value) (nextName_not_mem c b)

/-- Binding a value always succeeds, with the next name. -/
theorem bindValue_ok {value : Value} {scalar : Scalar} :
    bindValue c value b = .ok scalar b' ↔
      scalar = .parameter (b.nextName c) ∧ b' = b.push c value := by
  show (.ok (.parameter (b.nextName c)) (b.push c value) : EStateM.Result PlanError Binding Scalar)
    = .ok scalar b' ↔ _
  rw [EStateM.Result.ok.injEq, eq_comm, @eq_comm _ b']

/-- Binding a literal succeeds when it has the form that its declared type asks for, and binds
that form to the next name. -/
theorem bind_ok {value : Value} {ty : EdmType} {scalar : Scalar} :
    bind c value ty b = .ok scalar b' ↔
      ∃ v, value.normalize ty = .ok v ∧ scalar = .parameter (b.nextName c) ∧
        b' = b.push c v := by
  unfold bind
  cases h : value.normalize ty with
  | ok v =>
    rw [bindValue_ok]
    constructor
    · intro hb
      exact ⟨v, rfl, hb⟩
    · rintro ⟨v', hv, hb⟩
      cases hv
      exact hb
  | error e =>
    constructor
    · intro hb
      exact absurd hb throw_ne_ok
    · rintro ⟨v, hv, -⟩
      cases hv

/-- Binding a literal fails when it has no form of its declared type, and changes nothing then. -/
theorem bind_error {value : Value} {ty : EdmType} {e : PlanError}
    (h : bind c value ty b = .error e b') : value.normalize ty = .error e ∧ b' = b := by
  unfold bind at h
  cases hnormal : value.normalize ty with
  | ok v =>
    rw [hnormal] at h
    cases h
  | error e' =>
    rw [hnormal] at h
    cases h
    exact ⟨rfl, rfl⟩

/-! ## Walks that bind -/

/-- One more parameter is bound. -/
def Adds (c : Config) (b b' : Binding) : Prop := ∃ value, b' = b.push c value

/-- The one thing that is done with a binding: a value is bound. -/
inductive IsBind (c : Config) : (α : Type) → Run α → Prop
  | bindValue (value : Value) : IsBind c Scalar (bindValue c value)

/-- A computation goes over the binding by binding values and in no other way. -/
abbrev Binds (c : Config) {α : Type} (x : Run α) : Prop := Composed (IsBind c) α x

/-- Binding values is a walk. -/
theorem Binds.moves {α : Type} {x : Run α} (h : Binds c x) : Moves (Adds c) x := by
  refine Composed.moves h ?_
  rintro _ _ ⟨value⟩ b
  exact ReflTransGen.single ⟨value, rfl⟩

/-- Binding a value in the form of its declared type binds it, or nothing. -/
theorem bind_binds (c : Config) (value : Value) (ty : EdmType) : Binds c (bind c value ty) := by
  unfold bind
  split
  · exact .part (.bindValue _)
  · exact .throw _

/-- Along a walk, entries are only appended. -/
theorem entries_grow (h : ReflTransGen (Adds c) b b') :
    b.parameters.entries <+: b'.parameters.entries := by
  induction h with
  | refl => exact List.prefix_refl _
  | tail _ hadds ih =>
    obtain ⟨value, rfl⟩ := hadds
    rw [entries_push]
    exact ih.trans (List.prefix_append _ _)

/-- Along a walk, a bound name keeps its value. -/
theorem get?_of_grows (h : ReflTransGen (Adds c) b b') {name : String} {value : Value}
    (hget : b.parameters.get? name = some value) : b'.parameters.get? name = some value :=
  Parameters.get?_of_isPrefix (entries_grow h) hget

/-- Along a walk, names that differ go on to differ. -/
theorem nodup_names (h : ReflTransGen (Adds c) b b') (hb : b.parameters.names.Nodup) :
    b'.parameters.names.Nodup := by
  induction h with
  | refl => exact hb
  | tail _ hadds ih =>
    obtain ⟨value, rfl⟩ := hadds
    -- The new name was free.
    rw [names_push, List.nodup_append_comm, List.singleton_append, List.nodup_cons]
    exact ⟨nextName_not_mem c _, ih⟩

end Binding

end EntityQuery
