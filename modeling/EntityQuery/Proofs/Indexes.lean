import EntityQuery.Proofs.Aliases
import Std.Data.HashMap.Lemmas

/-!
# Indexes

A list whose members have keys may be kept with an index from the keys to the positions, which
spares the search for a key. `Indexes` says that an index is right: it has the keys of the list,
each with its position, and nothing else. Then no key stands twice, and what is found at the
position of a key is what the search for it finds (`Indexes.getElem?_eq`). A new key that is put
into the index with the position at the end keeps it right (`Indexes.push`).
-/

namespace EntityQuery

/-- An index has the keys of a list with their positions, and nothing else. -/
def Indexes {κ : Type} [BEq κ] [Hashable κ] (index : Std.HashMap κ Nat) (keys : List κ) : Prop :=
  ∀ (key : κ) (i : Nat), index[key]? = some i ↔ keys[i]? = some key

namespace Indexes

variable {κ α : Type} [BEq κ] [Hashable κ] {index : Std.HashMap κ Nat} {keys : List κ} {key : κ}

/-- The index has the keys of the list. -/
theorem isSome_iff (h : Indexes index keys) : index[key]?.isSome = true ↔ key ∈ keys := by
  rw [Option.isSome_iff_exists, List.mem_iff_getElem?]
  exact exists_congr fun i => h key i

/-- What is not in the index is no key of the list. -/
theorem eq_none_iff (h : Indexes index keys) : index[key]? = none ↔ key ∉ keys := by
  rw [← h.isSome_iff, Option.isSome_iff_ne_none, not_not]

/-- No key stands at two positions. -/
theorem nodup (h : Indexes index keys) : keys.Nodup := by
  rw [List.nodup_iff_getElem?_ne_getElem?]
  intro i j hlt hj heq
  obtain ⟨key, hkey⟩ : ∃ key, keys[j]? = some key := ⟨_, List.getElem?_eq_getElem hj⟩
  have hi := (h key i).mpr (heq.trans hkey)
  have hj := (h key j).mpr hkey
  rw [hi] at hj
  exact Nat.ne_of_lt hlt (Option.some.inj hj)

variable [LawfulBEq κ]

/-- An index that has nothing is the one of no keys. -/
theorem empty : Indexes (∅ : Std.HashMap κ Nat) [] := by
  intro key i
  simp

/-- What is found through the index is what the search through the list finds. -/
theorem getElem?_eq {l : List α} {keyOf : α → κ} (h : Indexes index (l.map keyOf)) (key : κ) :
    (index[key]?.bind fun i => l[i]?) = l.find? (keyOf · == key) := by
  cases hindex : index[key]? with
  | none =>
    have hmem := h.eq_none_iff.mp hindex
    show none = _
    rw [eq_comm, List.find?_eq_none]
    intro a ha heq
    exact hmem (beq_iff_eq.mp heq ▸ List.mem_map_of_mem ha)
  | some i =>
    have hkey := (h key i).mp hindex
    rw [List.getElem?_map] at hkey
    obtain ⟨a, ha, rfl⟩ := Option.map_eq_some_iff.mp hkey
    show l[i]? = _
    rw [ha, find?_key_eq_some keyOf h.nodup (List.mem_of_getElem? ha)]

/-- A new key may be put last, and into the index with its position. -/
theorem push (h : Indexes index keys) (hnew : key ∉ keys) :
    Indexes (index.insert key keys.length) (keys ++ [key]) := by
  intro other j
  rw [List.getElem?_append, Std.HashMap.getElem?_insert]
  by_cases hlt : j < keys.length
  · -- The positions of the keys that were there are as before.
    rw [if_pos hlt]
    split
    next heq =>
      obtain rfl := beq_iff_eq.mp heq
      constructor
      · intro hlast
        exact absurd (Option.some.inj hlast) (Nat.ne_of_gt hlt)
      · intro hkey
        exact absurd (List.mem_of_getElem? hkey) hnew
    next => exact h other j
  · -- From there on there is the new key alone.
    rw [if_neg hlt]
    split
    next heq =>
      obtain rfl := beq_iff_eq.mp heq
      rw [Option.some.injEq, List.getElem?_singleton]
      constructor
      · intro hlast
        rw [if_pos (by omega)]
      · intro hkey
        by_contra hne
        rw [if_neg (by omega)] at hkey
        cases hkey
    next hne =>
      have hold : keys[j]? = none := List.getElem?_eq_none (by omega)
      rw [h other j, hold, List.getElem?_singleton]
      constructor
      · exact nofun
      · intro hkey
        split at hkey
        next => exact absurd (beq_iff_eq.mpr (Option.some.inj hkey)) hne
        next => cases hkey

end Indexes

end EntityQuery
