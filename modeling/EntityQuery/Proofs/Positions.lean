import EntityQuery.Proofs.Preservation

/-!
# What comparisons of positions mean

A comparison of `indexof` with `k` is compiled to a comparison of the first `k + 1` characters of
the text that is searched with the text that is looked for. `Interpretation.ReadsTexts` says that
`substring`, `add` and `eq` are read as operations on texts and integers, and under such a reading
the predicate holds exactly when these characters are that text
(`Scope.position_comparison_meaning`). `Text.FirstAt` is what `indexof` asks. What stands at the
beginning of a text occurs there first, so the two questions have the same answer for one character
at position zero; for no other text and position they have, since every text occurs first at every
position of some text (`Text.exists_firstAt`).
-/

namespace EntityQuery

/-! ## First occurrences -/

namespace Text

variable {needle text : List Char} {j k : Nat}

/-- A text occurs in another one at a position, and at none before. -/
def FirstAt (needle text : List Char) (k : Nat) : Prop :=
  needle <+: text.drop k ∧ ∀ j < k, ¬needle <+: text.drop j

instance (needle text : List Char) (k : Nat) : Decidable (FirstAt needle text k) :=
  inferInstanceAs (Decidable (_ ∧ _))

/-- What a text begins with occurs in it first at its beginning. -/
theorem firstAt_zero : FirstAt needle text 0 ↔ needle <+: text := by
  constructor
  · intro h
    exact h.1
  · intro h
    exact ⟨h, fun j hj => absurd hj (Nat.not_lt_zero j)⟩

/-- A text occurs first at one position. -/
theorem FirstAt.unique (hj : FirstAt needle text j) (hk : FirstAt needle text k) : j = k := by
  rcases Nat.lt_trichotomy j k with hlt | heq | hlt
  · exact absurd hj.1 (hk.2 j hlt)
  · exact heq
  · exact absurd hk.1 (hj.2 k hlt)

/-- What the first characters of a text are occurs in it first at its beginning. -/
theorem firstAt_zero_of_take (h : text.take (k + 1) = needle) : FirstAt needle text 0 :=
  firstAt_zero.mpr (h ▸ List.take_prefix (k + 1) text)

/-- Every text occurs first at every position of some text. -/
theorem exists_firstAt (hneedle : needle ≠ []) (k : Nat) : ∃ text, FirstAt needle text k := by
  obtain ⟨c, cs, rfl⟩ := List.exists_cons_of_ne_nil hneedle
  -- A character that the text does not begin with is put before it, as often as it takes.
  obtain ⟨d, hd⟩ : ∃ d, c ≠ d := by
    by_cases hc : c = 'a'
    · exact ⟨'b', by rw [hc]; decide⟩
    · exact ⟨'a', hc⟩
  refine ⟨List.replicate k d ++ c :: cs, ?_, ?_⟩
  · have hdrop : (List.replicate k d ++ c :: cs).drop k = c :: cs :=
      List.drop_left' List.length_replicate
    simp only [hdrop, List.prefix_rfl]
  · intro j hj hprefix
    obtain ⟨n, rfl⟩ : ∃ n, k = j + (n + 1) := ⟨k - j - 1, by omega⟩
    rw [List.replicate_add, List.append_assoc, List.drop_left' List.length_replicate,
      List.replicate_succ, List.cons_append] at hprefix
    exact hd (List.cons_prefix_cons.mp hprefix).1

/-- Comparing the first characters of texts with a text says where it occurs first in all of them
only for one character, at position zero. -/
theorem take_iff_firstAt (hneedle : needle ≠ []) :
    (∀ text : List Char, text.take (k + 1) = needle ↔ FirstAt needle text k) ↔
      k = 0 ∧ needle.length = 1 := by
  constructor
  · -- Where the needle occurs first at the position, it would also have to stand at the beginning.
    intro h
    obtain ⟨text, hfirst⟩ := exists_firstAt hneedle k
    have hzero : k = 0 := hfirst.unique (firstAt_zero_of_take ((h text).mpr hfirst))
    subst hzero
    -- The needle itself has it at position zero, so it is no longer than one character.
    have htake : needle.take 1 = needle := (h needle).mpr (firstAt_zero.mpr List.prefix_rfl)
    have hlength := congrArg List.length htake
    rw [List.length_take] at hlength
    have hpos := List.length_pos_iff.mpr hneedle
    exact ⟨rfl, by omega⟩
  · rintro ⟨rfl, hlength⟩ text
    rw [firstAt_zero, List.prefix_iff_eq_take, hlength, eq_comm]

end Text

/-! ## Reading texts -/

section

variable {V : Type}

/-- An interpretation reads texts and integers. A part of a text from the first character on is as
many characters as it has, up to a number of them; integers are added; texts are equal when they
are the same. -/
structure Interpretation.ReadsTexts (I : Interpretation V) (text : List Char → V)
    (integer : Int → V) : Prop where
  /-- An integer stands for itself. -/
  constant (n : Int64) : I.constant n = integer n.toInt
  /-- Integers are added. -/
  add (m n : Int) : I.arithmetic .add (integer m) (integer n) = integer (m + n)
  /-- The first characters of a text are a part of it. -/
  substring (cs : List Char) (m : Nat) :
    I.call .substring [text cs, integer 0, integer m] = text (cs.take m)
  /-- Equal texts are the same. -/
  equal (cs ds : List Char) : I.compare .eq (text cs) (text ds) = decide (cs = ds)

/-- What has a value is no condition. -/
theorem Expr.isCondition_of_value {s : Scope} {I : Interpretation V} {e : Expr} {x : V}
    (h : e.value s I = some x) : e.isCondition = false := by
  cases e with
  | logical | relational => cases h
  | unary op operand =>
    cases op with
    | negate => rfl
    | not => cases h
  | call f args =>
    show (f.kind == .patternMatch) = false
    cases hkind : f.kind with
    | patternMatch =>
      rw [Expr.value, hkind] at h
      cases h
    | _ => rfl
  | _ => rfl

/-- The comparison of a position with an integer asks for the first characters of the text that is
searched. -/
theorem Expr.truth_position {s : Scope} {I : Interpretation V} {text : List Char → V}
    {integer : Int → V} (hI : I.ReadsTexts text integer) {op : RelationalOp}
    {haystack needle position : Expr} {cs ds : List Char} {k : Nat}
    (hhaystack : haystack.value s I = some (text cs)) (hneedle : needle.value s I = some (text ds))
    (hposition : position.value s I = some (integer k)) :
    (Expr.relational op (.call .indexOf [haystack, needle]) position).truth s I =
      op.equality? (decide (cs.take (k + 1) = ds)) := by
  have hwaiting : (Expr.call .indexOf [haystack, needle]).waiting? =
      some (.indexOf, haystack, needle) := rfl
  have hstop : I.arithmetic .add (integer k) (I.constant 1) = integer (k + 1 : Nat) := by
    rw [hI.constant, hI.add]
    rfl
  have hstart : I.constant 0 = integer 0 := hI.constant 0
  rw [Expr.truth_relational rfl (isCondition_of_value hposition),
    Expr.comparison_indexOf hwaiting hhaystack hneedle hposition, hstop, hstart, hI.substring,
    hI.equal]

/-- A comparison of a position with `k` is compiled to a predicate that holds of a text when its
first `k + 1` characters are the text that is looked for, and its negation to the negation. When the
predicate holds, that text occurs first at position zero. The comparison says where the text
occurs first, whatever is searched, exactly when it asks for one character at position zero. -/
theorem Scope.position_comparison_meaning {s : Scope} {op : RelationalOp}
    {haystack needle position : Expr} {p : Predicate} {t t' : Session} (hsound : s.Sound t.joins)
    (h : s.condition (.relational op (.call .indexOf [haystack, needle]) position) t = .ok p t')
    {I : Interpretation V} {text : List Char → V} {integer : Int → V}
    (hI : I.ReadsTexts text integer) {cs ds : List Char} {k : Nat}
    (hhaystack : haystack.value s I = some (text cs)) (hneedle : needle.value s I = some (text ds))
    (hposition : position.value s I = some (integer k)) (hds : ds ≠ []) :
    ((op = .eq ∧ p.eval I (t'.environment s) = some (decide (cs.take (k + 1) = ds))) ∨
      (op = .ne ∧ p.eval I (t'.environment s) = some (!decide (cs.take (k + 1) = ds)))) ∧
    (cs.take (k + 1) = ds → Text.FirstAt ds cs 0) ∧
    ((∀ text : List Char, text.take (k + 1) = ds ↔ Text.FirstAt ds text k) ↔
      k = 0 ∧ ds.length = 1) := by
  refine ⟨?_, Text.firstAt_zero_of_take, Text.take_iff_firstAt hds⟩
  obtain ⟨b, hb, htruth⟩ := condition_means I hsound h
  rw [Expr.truth_position hI hhaystack hneedle hposition] at htruth
  cases op with
  | eq =>
    cases htruth
    exact .inl ⟨rfl, hb⟩
  | ne =>
    cases htruth
    exact .inr ⟨rfl, hb⟩
  | gt | ge | lt | le => cases htruth

end

/-! ## Names in the shop -/

namespace Shop

/-- The test that a part of the name of a customer stands at a position. -/
def partAt (part : String) (position : Int32) : Expr :=
  .relational .eq
    (.call .indexOf [.property ["name"] .string, .constant (.string part) .string])
    (.constant (.int32 position) .int32)

/-- An interpretation that reads texts and integers, and in which everyone has one name. -/
def named (name : String) : Interpretation (List Char ⊕ Int) where
  column _ _ := .inl name.toList
  literal
    | .string text => .inl text.toList
    | .int32 n => .inr n.toInt
    | _ => .inr 0
  constant n := .inr n.toInt
  call
    | .substring, [.inl cs, .inr start, .inr length] =>
      .inl ((cs.drop start.toNat).take length.toNat)
    | _, _ => .inr 0
  arithmetic
    | .add, .inr m, .inr n => .inr (m + n)
    | _, _, _ => .inr 0
  negate x := x
  compare
    | .eq, x, y => decide (x = y)
    | _, _, _ => false
  like _ _ := false
  isNull _ := false

/-- Texts and integers are read as they are. -/
theorem named_readsTexts (name : String) : (named name).ReadsTexts .inl .inr where
  constant _ := rfl
  add _ _ := rfl
  substring _ _ := rfl
  equal cs ds := by
    show decide (Sum.inl cs = Sum.inl ds) = decide (cs = ds)
    simp only [Sum.inl.injEq]

/-- The test that a name has an A at position zero holds of a name where an A occurs there first. -/
theorem partAt_beginning :
    ∃ p t', customers.condition (partAt "A" 0) .start = .ok p t' ∧
      p.eval (named "Al") (t'.environment customers) = some true ∧
      Text.FirstAt "A".toList "Al".toList 0 ∧
      ∀ text : List Char, text.take 1 = "A".toList ↔ Text.FirstAt "A".toList text 0 := by
  obtain ⟨p, t', h⟩ := exists_of_succeeds
    (show succeeds (customers.condition (partAt "A" 0) .start) = true by decide +kernel)
  have hhaystack : (Expr.property ["name"] .string).value customers (named "Al") =
    some (.inl "Al".toList) := rfl
  have hneedle : (Expr.constant (.string "A") .string).value customers (named "Al") =
    some (.inl "A".toList) := rfl
  have hposition : (Expr.constant (.int32 0) .int32).value customers (named "Al") =
    some (.inr (0 : Nat)) := rfl
  obtain ⟨hmeaning, hfirst, hexact⟩ := Scope.position_comparison_meaning
    (Scope.Sound.empty customers) h (named_readsTexts "Al") hhaystack hneedle hposition (by decide)
  have hbegins : "Al".toList.take 1 = "A".toList := by decide
  refine ⟨p, t', h, ?_, hfirst hbegins, hexact.mpr ⟨rfl, by decide⟩⟩
  rcases hmeaning with ⟨-, heval⟩ | ⟨hop, -⟩
  · rw [heval, hbegins]
    rfl
  · cases hop

/-- A name has an l first at position one, and the test that it has it there does not hold. -/
theorem partAt_fails :
    ∃ p t', customers.condition (partAt "l" 1) .start = .ok p t' ∧
      (named "Al").ReadsTexts .inl .inr ∧
      (Expr.property ["name"] .string).value customers (named "Al") = some (.inl "Al".toList) ∧
      Text.FirstAt "l".toList "Al".toList 1 ∧
      p.eval (named "Al") (t'.environment customers) = some false :=
  ⟨_, _, rfl, named_readsTexts "Al", rfl, by decide, rfl⟩

end Shop

end EntityQuery
