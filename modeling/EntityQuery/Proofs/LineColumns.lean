import EntityQuery.Proofs.Coverage
import EntityQuery.Proofs.Snippets

/-!
# Lines and columns against offsets

Positions are in the order in which a text is read: an earlier line comes first, and on one line the
smaller column. Every character moves the position on (`Position.lt_advance`), whether it ends the
line or takes a column, so the position after some characters is behind the one before them
(`Position.lt_foldl_advance`). The character boundaries of a text are the ends of its first parts
(`Text.isBoundary_iff`), and the position of a boundary is the one after the first part
(`Position.ofOffset_append`). Of two boundaries the later one has the later first part, which makes
positions and boundaries go in the same order (`Position.ofOffset_lt_ofOffset_iff`).

A position is taken back to its offset by going over the text until the position is met
(`Position.toOffset?`). What stands at it is determined, since no position is met twice
(`Position.bytesTo?_eq_some_iff`).
-/

namespace EntityQuery

/-! ## Boundaries -/

namespace Text

/-- An offset of a text at which a character begins, or the text ends. -/
def IsBoundary (source : String) (offset : Nat) : Prop := String.Pos.Raw.IsValid source ⟨offset⟩

/-- The boundaries of a text are the ends of its first parts. -/
theorem isBoundary_iff {source : String} {offset : Nat} :
    IsBoundary source offset ↔
      ∃ before after, source.toList = before ++ after ∧ byteLength before = offset := by
  constructor
  · intro h
    obtain ⟨first, second, hsource, hoffset⟩ := String.Pos.Raw.isValid_iff_exists_append.mp h
    refine ⟨first.toList, second.toList, by rw [hsource, String.toList_append], ?_⟩
    have hsize : first.utf8ByteSize = offset := (congrArg String.Pos.Raw.byteIdx hoffset).symm
    rw [← hsize, ← size_utf8Encode]
    conv_rhs => rw [← String.ofList_toList (s := first)]
    rfl
  · rintro ⟨before, after, hsource, rfl⟩
    exact isValid_byteLength hsource

/-- Of two first parts of a text, one is a first part of the other. -/
theorem exists_between {before after before' after' : List Char}
    (h : before ++ after = before' ++ after') (hlt : byteLength before < byteLength before') :
    ∃ between, between ≠ [] ∧ before' = before ++ between := by
  rcases List.append_eq_append_iff.mp h with ⟨between, rfl, -⟩ | ⟨between, rfl, -⟩
  · refine ⟨between, ?_, rfl⟩
    rintro rfl
    rw [List.append_nil] at hlt
    exact absurd hlt (Nat.lt_irrefl _)
  · rw [byteLength_append] at hlt
    omega

end Text

/-! ## The order of positions -/

namespace Position

/-- A position is before another one when it is on an earlier line, or on the same line in an
earlier column. -/
instance : LT Position :=
  ⟨fun p q => p.line < q.line ∨ p.line = q.line ∧ p.column < q.column⟩

variable {p q r : Position}

theorem lt_iff : p < q ↔ p.line < q.line ∨ p.line = q.line ∧ p.column < q.column := Iff.rfl

theorem lt_irrefl (p : Position) : ¬ p < p := by
  rw [lt_iff]
  omega

theorem lt_trans (hpq : p < q) (hqr : q < r) : p < r := by
  rw [lt_iff] at *
  omega

/-- A character moves the position on. -/
theorem lt_advance (p : Position) (c : Char) : p < p.advance c := by
  unfold advance
  split
  next => exact .inl (Nat.lt_succ_self _)
  next => exact .inr ⟨rfl, Nat.lt_succ_self _⟩

/-- Characters move the position on if there are any. -/
theorem lt_foldl_advance (p : Position) {cs : List Char} (h : cs ≠ []) :
    p < cs.foldl advance p := by
  induction cs generalizing p with
  | nil => exact absurd rfl h
  | cons c cs ih =>
    have hfirst : p < p.advance c := lt_advance p c
    cases cs with
    | nil => exact hfirst
    | cons d cs => exact lt_trans hfirst (ih (p.advance c) (List.cons_ne_nil d cs))

/-- The position of a boundary is the one after the characters before it. -/
theorem ofOffset_byteLength {text before after : List Char} (h : text = before ++ after) :
    ofOffset text (Text.byteLength before) = before.foldl advance first := by
  unfold ofOffset
  rw [h, Text.charsBefore_append]

/-- Boundaries and their positions are in the same order. -/
theorem ofOffset_lt_ofOffset_iff {source : String} {a b : Nat} (ha : Text.IsBoundary source a)
    (hb : Text.IsBoundary source b) :
    ofOffset source.toList a < ofOffset source.toList b ↔ a < b := by
  -- One direction is said for any two boundaries, and the other one follows by exchanging them.
  have hmono : ∀ {a b : Nat}, Text.IsBoundary source a → Text.IsBoundary source b → a < b →
      ofOffset source.toList a < ofOffset source.toList b := by
    intro a b ha hb hlt
    obtain ⟨before, after, hbefore, rfl⟩ := Text.isBoundary_iff.mp ha
    obtain ⟨before', after', hbefore', rfl⟩ := Text.isBoundary_iff.mp hb
    obtain ⟨between, hne, rfl⟩ := Text.exists_between (hbefore.symm.trans hbefore') hlt
    rw [ofOffset_byteLength hbefore, ofOffset_byteLength hbefore', List.foldl_append]
    exact lt_foldl_advance _ hne
  refine ⟨fun hlt => ?_, hmono ha hb⟩
  rcases Nat.lt_trichotomy a b with h | rfl | h
  · exact h
  · exact absurd hlt (lt_irrefl _)
  · exact absurd (lt_trans hlt (hmono hb ha h)) (lt_irrefl _)

/-- No two boundaries have the same position. -/
theorem ofOffset_inj {source : String} {a b : Nat} (ha : Text.IsBoundary source a)
    (hb : Text.IsBoundary source b)
    (h : ofOffset source.toList a = ofOffset source.toList b) : a = b := by
  have hab := (ofOffset_lt_ofOffset_iff ha hb).not
  have hba := (ofOffset_lt_ofOffset_iff hb ha).not
  rw [h] at hab hba
  have hle := hab.mp (lt_irrefl _)
  have hge := hba.mp (lt_irrefl _)
  omega

/-! ## From positions to offsets -/

/-- The number of bytes that are passed on the way to a position, from where the text is entered at
another one. -/
def bytesTo? (goal : Position) : Position → List Char → Option Nat
  | here, [] => if here = goal then some 0 else none
  | here, c :: cs =>
    if here = goal then some 0
    else (bytesTo? goal (here.advance c) cs).map (c.utf8Size + ·)

/-- The offset of the character at a position, or of the end of the text if it is there. -/
def toOffset? (text : List Char) (p : Position) : Option Nat := bytesTo? p first text

/-- The bytes on the way to a position are those of the characters that lead there. -/
theorem bytesTo?_eq_some_iff {goal here : Position} {cs : List Char} {n : Nat} :
    bytesTo? goal here cs = some n ↔
      ∃ before after, cs = before ++ after ∧ Text.byteLength before = n ∧
        before.foldl advance here = goal := by
  induction cs generalizing here n with
  | nil =>
    unfold bytesTo?
    constructor
    · intro h
      split at h
      next hgoal =>
        cases h
        exact ⟨[], [], rfl, rfl, hgoal⟩
      next => cases h
    · rintro ⟨before, after, hcs, rfl, hgoal⟩
      obtain ⟨rfl, -⟩ := List.append_eq_nil_iff.mp hcs.symm
      exact if_pos hgoal
  | cons c cs ih =>
    unfold bytesTo?
    constructor
    · intro h
      split at h
      next hgoal =>
        cases h
        exact ⟨[], c :: cs, rfl, rfl, hgoal⟩
      next =>
        obtain ⟨m, hm, rfl⟩ := Option.map_eq_some_iff.mp h
        obtain ⟨before, after, rfl, rfl, hgoal⟩ := ih.mp hm
        exact ⟨c :: before, after, rfl, rfl, hgoal⟩
    · rintro ⟨before, after, hcs, rfl, hgoal⟩
      cases before with
      | nil => exact if_pos hgoal
      | cons d before =>
        obtain ⟨rfl, rfl⟩ := List.cons.inj hcs
        -- The goal is behind a character, so it is not met before it.
        have hne : here ≠ goal := by
          rintro rfl
          have hlt := lt_foldl_advance here (List.cons_ne_nil c before)
          rw [hgoal] at hlt
          exact lt_irrefl _ hlt
        have hrest := ih.mpr ⟨before, after, rfl, rfl, hgoal⟩
        rw [if_neg hne, hrest]
        rfl

/-- A position is taken back to the boundary whose position it is. -/
theorem toOffset?_eq_some_iff {source : String} {p : Position} {offset : Nat} :
    toOffset? source.toList p = some offset ↔
      Text.IsBoundary source offset ∧ ofOffset source.toList offset = p := by
  unfold toOffset?
  rw [bytesTo?_eq_some_iff, Text.isBoundary_iff]
  constructor
  · rintro ⟨before, after, hsource, rfl, hp⟩
    exact ⟨⟨before, after, hsource, rfl⟩, (ofOffset_byteLength hsource).trans hp⟩
  · rintro ⟨⟨before, after, hsource, rfl⟩, hp⟩
    exact ⟨before, after, hsource, rfl, (ofOffset_byteLength hsource).symm.trans hp⟩

/-- The positions of the character boundaries of a text, its end among them. In front of a boundary
there are complete lines and a part of a line without a line end: its line is one more than the line
ends before it, and its column one more than the characters of that part. Positions are in the order
of the boundaries, so no two boundaries have the same one, and each position leads back to the
boundary that has it, and to no offset if there is none. -/
theorem ofOffset_faithful (source : String) :
    (∀ offset, Text.IsBoundary source offset →
      ∃ earlier part after, source.toList = earlier ++ part ++ after ∧
        Text.byteLength (earlier ++ part) = offset ∧ '\n' ∉ part ∧
        (earlier = [] ∨ earlier.getLast? = some '\n') ∧
        ofOffset source.toList offset =
          ⟨1 + (earlier ++ part).count '\n', 1 + part.length⟩) ∧
    (∀ a b, Text.IsBoundary source a → Text.IsBoundary source b →
      (ofOffset source.toList a < ofOffset source.toList b ↔ a < b) ∧
      (ofOffset source.toList a = ofOffset source.toList b → a = b)) ∧
    (∀ offset, Text.IsBoundary source offset →
      toOffset? source.toList (ofOffset source.toList offset) = some offset) ∧
    ∀ p offset, toOffset? source.toList p = some offset ↔
      Text.IsBoundary source offset ∧ ofOffset source.toList offset = p := by
  refine ⟨?_, fun a b ha hb => ⟨ofOffset_lt_ofOffset_iff ha hb, ofOffset_inj ha hb⟩,
    fun offset h => toOffset?_eq_some_iff.mpr ⟨h, rfl⟩, fun p offset => toOffset?_eq_some_iff⟩
  intro offset h
  obtain ⟨before, after, hsource, rfl⟩ := Text.isBoundary_iff.mp h
  have hposition := ofOffset_append before after
  rw [← hsource, Nat.add_comm, Nat.add_comm _ 1] at hposition
  rcases Text.eq_lastLine_or before with ⟨hnone, hsame⟩ | ⟨earlier, hearlier⟩
  · refine ⟨[], before, after, hsource, rfl, hnone, .inl rfl, ?_⟩
    rw [hposition, hsame]
    rfl
  · have hbefore : before = (earlier ++ ['\n']) ++ Text.lastLine before := by
      rw [List.append_assoc]
      exact hearlier
    refine ⟨earlier ++ ['\n'], Text.lastLine before, after, ?_, ?_,
      Text.newline_not_mem_lastLine before, .inr List.getLast?_concat, ?_⟩
    · rw [← hbefore]
      exact hsource
    · rw [← hbefore]
    · rw [← hbefore]
      exact hposition

end Position

namespace Shop

open Position (ofOffset toOffset?)

/-- In the condition on two lines, the end of the first line, which is behind a character of two
bytes, and the end of the text are boundaries. Their positions are in order, and lead back to
them. -/
theorem twoLines_positions :
    Text.IsBoundary twoLines 12 ∧ Text.IsBoundary twoLines 22 ∧
      (∃ earlier part after, twoLines.toList = earlier ++ part ++ after ∧
        Text.byteLength (earlier ++ part) = 22 ∧ '\n' ∉ part ∧
        (earlier = [] ∨ earlier.getLast? = some '\n') ∧
        ofOffset twoLines.toList 22 = ⟨1 + (earlier ++ part).count '\n', 1 + part.length⟩) ∧
      ofOffset twoLines.toList 12 < ofOffset twoLines.toList 22 ∧
      ofOffset twoLines.toList 12 = ⟨1, 12⟩ ∧ toOffset? twoLines.toList ⟨1, 12⟩ = some 12 ∧
      ofOffset twoLines.toList 22 = ⟨2, 10⟩ ∧ toOffset? twoLines.toList ⟨2, 10⟩ = some 22 := by
  have hline : Text.IsBoundary twoLines 12 :=
    Text.isBoundary_iff.mpr
      ⟨"name eq 'é'".toList, "\nor id = 5".toList, by decide +kernel, by decide +kernel⟩
  have hend : Text.IsBoundary twoLines 22 :=
    Text.isBoundary_iff.mpr
      ⟨twoLines.toList, [], (List.append_nil _).symm, by decide +kernel⟩
  have hfirst : ofOffset twoLines.toList 12 = ⟨1, 12⟩ := by decide +kernel
  have hlast : ofOffset twoLines.toList 22 = ⟨2, 10⟩ := by decide +kernel
  obtain ⟨hposition, horder, -, hback⟩ := Position.ofOffset_faithful twoLines
  exact ⟨hline, hend, hposition 22 hend, (horder 12 22 hline hend).1.mpr (by decide),
    hfirst, (hback _ _).mpr ⟨hline, hfirst⟩, hlast, (hback _ _).mpr ⟨hend, hlast⟩⟩

end Shop

end EntityQuery
