import EntityQuery.Plan.FreeName
import Mathlib.Data.List.Nodup
import Mathlib.Data.List.Range

/-!
# The search for a free name

`firstFree` looks past a bounded number of candidates. It never leaves that window
(`firstFree_le`), and it passes over taken candidates only (`isTaken_of_lt_firstFree`). When the
candidates differ and the taken ones stand in a list that is no longer than the window, the
candidate that it stops at is free (`not_isTaken_firstFree`): otherwise the window would hold one
taken candidate more than there are. `toString_injective` is what makes counted names differ.
-/

namespace EntityQuery

variable {isTaken : String → Bool} {candidate : Nat → String}

/-- The search does not go back. -/
theorem le_firstFree (taken start : Nat) : start ≤ firstFree isTaken candidate taken start := by
  induction taken generalizing start with
  | zero => exact Nat.le_refl start
  | succ taken ih =>
    unfold firstFree
    split
    · exact Nat.le_of_succ_le (ih (start + 1))
    · exact Nat.le_refl start

/-- The search goes at most as far as the number of candidates that it may pass over. -/
theorem firstFree_le (taken start : Nat) :
    firstFree isTaken candidate taken start ≤ start + taken := by
  induction taken generalizing start with
  | zero => exact Nat.le_refl start
  | succ taken ih =>
    unfold firstFree
    split
    · have h := ih (start + 1)
      omega
    · omega

/-- The search passes over taken candidates only. -/
theorem isTaken_of_lt_firstFree {taken start n : Nat} (hs : start ≤ n)
    (hn : n < firstFree isTaken candidate taken start) : isTaken (candidate n) = true := by
  induction taken generalizing start with
  | zero =>
    unfold firstFree at hn
    omega
  | succ taken ih =>
    unfold firstFree at hn
    split at hn
    next htaken =>
      rcases Nat.eq_or_lt_of_le hs with rfl | hlt
      · exact htaken
      · exact ih hlt hn
    next => omega

/-- A search that stops at a taken candidate has gone to the end of its window. -/
theorem firstFree_eq_of_isTaken {taken start : Nat}
    (h : isTaken (candidate (firstFree isTaken candidate taken start)) = true) :
    firstFree isTaken candidate taken start = start + taken := by
  induction taken generalizing start with
  | zero => rfl
  | succ taken ih =>
    unfold firstFree at h ⊢
    split at h
    next htaken =>
      rw [if_pos htaken, ih h]
      omega
    next hfree => exact absurd h hfree

/-- When the candidates differ and no more names are taken than the search may pass over, it stops
at a free one. -/
theorem not_isTaken_firstFree (hinj : Function.Injective candidate) (names : List String)
    (hnames : ∀ name, isTaken name = true → name ∈ names) {taken : Nat}
    (hlen : names.length ≤ taken) (start : Nat) :
    isTaken (candidate (firstFree isTaken candidate taken start)) = false := by
  rw [← Bool.not_eq_true]
  intro h
  have hend := firstFree_eq_of_isTaken h
  -- Every candidate of the window is taken, and there are `taken + 1` of them.
  have hall : ∀ i ∈ List.range (taken + 1), candidate (start + i) ∈ names := by
    intro i hi
    rw [List.mem_range] at hi
    apply hnames
    rcases Nat.lt_succ_iff_lt_or_eq.mp hi with hlt | rfl
    · exact isTaken_of_lt_firstFree (Nat.le_add_right start i) (by rw [hend]; omega)
    · rw [← hend]
      exact h
  have hnodup : ((List.range (taken + 1)).map fun i => candidate (start + i)).Nodup :=
    List.nodup_range.map fun i j hij => Nat.add_left_cancel (hinj hij)
  have hsub : ((List.range (taken + 1)).map fun i => candidate (start + i)) ⊆ names := by
    intro name hname
    obtain ⟨i, hi, rfl⟩ := List.mem_map.mp hname
    exact hall i hi
  have hle := hnodup.length_le_of_subset hsub
  rw [List.length_map, List.length_range] at hle
  omega

/-- Different numbers are written differently. -/
theorem toString_injective : Function.Injective (toString : Nat → String) := by
  intro m n h
  rw [Nat.toString_eq_ofList_toDigits, Nat.toString_eq_ofList_toDigits, String.ofList_inj] at h
  rw [← Nat.ofDigitChars_ten_toDigits (n := m), h, Nat.ofDigitChars_ten_toDigits]

end EntityQuery
