import EntityQuery.Proofs.Lexemes
import Mathlib.Data.List.DropRight

/-!
# Lines and positions of a text

A text is taken apart at a character: what stands before it, and it with what stands behind it. What
stands before says on which line the character is, and `Text.lastLine` is what stands before it on
that line. The position of the character is one more than the line ends and the characters of
`lastLine` that were passed (`Position.ofOffset_append`).

`Text.lines` has a line end of two characters, so a part of a text is on one line when it has no
`\n`, and does not end between the two (`Text.OnLine`). Then it is a part of the line of that
number, behind `lastLine` (`Text.lines_at`). Lines before it are passed by
`Text.lines_behind_newline`, and the line itself begins with the characters up to the end of the
part (`Text.exists_first_line`).
-/

namespace EntityQuery

namespace Text

/-! ## Byte offsets -/

/-- The characters before the offset that a first part of a text ends at are this part. -/
theorem charsBefore_append (before after : List Char) :
    charsBefore (before ++ after) (byteLength before) = before := by
  induction before with
  | nil =>
    cases after with
    | nil => rfl
    | cons c cs => exact if_pos rfl
  | cons c before ih =>
    have hpos := c.utf8Size_pos
    have hbehind : ¬ byteLength (c :: before) = 0 := by
      rw [byteLength]
      omega
    have hrest : byteLength (c :: before) - c.utf8Size = byteLength before := by
      rw [byteLength, Nat.add_sub_cancel_left]
    rw [List.cons_append, charsBefore, if_neg hbehind, hrest, ih]

/-! ## The last line -/

/-- What stands behind the last line end of a text. -/
def lastLine (cs : List Char) : List Char := cs.rtakeWhile (· != '\n')

/-- Behind a line end nothing stands yet. -/
theorem lastLine_newline (cs : List Char) : lastLine (cs ++ ['\n']) = [] := by
  unfold lastLine
  rw [List.rtakeWhile_concat, if_neg (by decide)]

/-- Another character stands on the last line. -/
theorem lastLine_concat (cs : List Char) {c : Char} (h : c ≠ '\n') :
    lastLine (cs ++ [c]) = lastLine cs ++ [c] := by
  unfold lastLine
  rw [List.rtakeWhile_concat, if_pos (bne_iff_ne.mpr h)]

/-- No line end stands on the last line. -/
theorem newline_not_mem_lastLine (cs : List Char) : '\n' ∉ lastLine cs := by
  intro hmem
  unfold lastLine at hmem
  simpa using List.mem_rtakeWhile_imp hmem

/-- A text is its last line, or has a line end before that. -/
theorem eq_lastLine_or (cs : List Char) :
    '\n' ∉ cs ∧ lastLine cs = cs ∨ ∃ earlier, cs = earlier ++ '\n' :: lastLine cs := by
  induction cs using List.reverseRecOn with
  | nil => exact .inl ⟨List.not_mem_nil, rfl⟩
  | append_singleton cs c ih =>
    by_cases hc : c = '\n'
    · rw [hc, lastLine_newline]
      exact .inr ⟨cs, rfl⟩
    · rw [lastLine_concat cs hc]
      rcases ih with ⟨hnone, hsame⟩ | ⟨earlier, hearlier⟩
      · refine .inl ⟨?_, by rw [hsame]⟩
        rw [List.mem_append, List.mem_singleton, not_or]
        exact ⟨hnone, Ne.symm hc⟩
      · refine .inr ⟨earlier, ?_⟩
        rw [← List.cons_append, ← List.append_assoc, ← hearlier]

end Text

namespace Position

open Text

/-- After some characters, the position is behind their line ends and their last line. -/
theorem foldl_advance (cs : List Char) :
    cs.foldl advance first = ⟨cs.count '\n' + 1, (lastLine cs).length + 1⟩ := by
  induction cs using List.reverseRecOn with
  | nil => rfl
  | append_singleton cs c ih =>
    rw [List.foldl_append, ih, List.foldl_cons, List.foldl_nil, advance, List.count_append]
    split
    next hc =>
      rw [hc, lastLine_newline]
      rfl
    next hc =>
      rw [lastLine_concat cs hc, List.length_append, List.count_singleton, if_neg]
      · rfl
      · simpa using hc

/-- The position of the character behind a first part of a text. -/
theorem ofOffset_append (before after : List Char) :
    ofOffset (before ++ after) (byteLength before) =
      ⟨before.count '\n' + 1, (lastLine before).length + 1⟩ := by
  unfold ofOffset
  rw [charsBefore_append, foldl_advance]

end Position

namespace Text

/-! ## Lines -/

/-- All that a first character can be: a line end, the first one of a line end of two characters,
which ends the line like the second one alone, or the first character of the first line. -/
theorem lines_cons_cases (c : Char) (cs : List Char) :
    (c = '\n' ∧ lines (c :: cs) = [] :: lines cs) ∨
    (c = '\r' ∧ cs.head? = some '\n' ∧ lines (c :: cs) = lines cs) ∨
    (c ≠ '\n' ∧ ¬ (c = '\r' ∧ cs.head? = some '\n') ∧
      lines (c :: cs) = (c :: (lines cs).headD []) :: (lines cs).tail) := by
  rw [lines.eq_def]
  split
  next h => cases h
  next h =>
    cases h
    exact .inl ⟨rfl, rfl⟩
  next h =>
    cases h
    exact .inr (.inl ⟨rfl, rfl, rfl⟩)
  next hnewline hreturn h =>
    cases h
    refine .inr (.inr ⟨?_, ?_, ?_⟩)
    · rintro rfl
      exact hnewline rfl
    · rintro ⟨rfl, hhead⟩
      obtain ⟨rest, rfl⟩ := List.head?_eq_some_iff.mp hhead
      exact hreturn _ rfl rfl
    · split
      next hnone => rw [hnone]; rfl
      next hsome => rw [hsome]; rfl

/-- No line has a line end. -/
theorem newline_not_mem_lines (cs : List Char) : ∀ l ∈ lines cs, '\n' ∉ l := by
  induction cs with
  | nil => exact List.forall_mem_nil _
  | cons c cs ih =>
    rcases lines_cons_cases c cs with ⟨-, h⟩ | ⟨-, -, h⟩ | ⟨hc, -, h⟩
    · rw [h]
      exact List.forall_mem_cons.mpr ⟨List.not_mem_nil, ih⟩
    · rw [h]
      exact ih
    · rw [h, List.forall_mem_cons, List.mem_cons, not_or]
      refine ⟨⟨Ne.symm hc, ?_⟩, fun l hl => ih l (List.mem_of_mem_tail hl)⟩
      cases hlines : lines cs with
      | nil => exact List.not_mem_nil
      | cons l ls => exact ih l (hlines ▸ List.mem_cons_self)

/-- The lines behind a line end are those of what stands behind it, after as many as there are line
ends up to it. -/
theorem lines_behind_newline (earlier rest : List Char) :
    ∃ before, lines (earlier ++ '\n' :: rest) = before ++ lines rest ∧
      before.length = earlier.count '\n' + 1 := by
  induction earlier with
  | nil => exact ⟨[[]], rfl, rfl⟩
  | cons c earlier ih =>
    obtain ⟨before, hlines, hlength⟩ := ih
    rw [List.cons_append]
    rcases lines_cons_cases c (earlier ++ '\n' :: rest) with ⟨rfl, h⟩ | ⟨rfl, -, h⟩ | ⟨hc, -, h⟩
    · refine ⟨[] :: before, by rw [h, hlines]; rfl, ?_⟩
      rw [List.length_cons, hlength, List.count_cons_self]
    · refine ⟨before, h.trans hlines, ?_⟩
      rw [hlength, List.count_cons_of_ne (by decide)]
    · -- There is a first line for the character, since a line ends behind it.
      obtain ⟨l, ls, rfl⟩ := List.exists_cons_of_length_eq_add_one hlength
      refine ⟨(c :: l) :: ls, by rw [h, hlines]; rfl, ?_⟩
      rw [List.count_cons_of_ne hc, ← hlength]
      rfl

/-- A part of a text stands on one line, with the line end left out: it has some characters but no
`\n`, and it does not end within a line end. -/
structure OnLine (inside after : List Char) : Prop where
  /-- There are some characters. -/
  ne_nil : inside ≠ []
  /-- None of them ends the line. -/
  newline_not_mem : '\n' ∉ inside
  /-- The last one does not begin a line end of two characters. -/
  not_return : ¬ (inside.getLast? = some '\r' ∧ after.head? = some '\n')

/-- The first line begins with the characters of a part that stands on one line. -/
theorem exists_first_line {inside after : List Char} (h : OnLine inside after) :
    ∃ right, (lines (inside ++ after)).head? = some (inside ++ right) := by
  obtain ⟨hne, hnewline, hreturn⟩ := h
  induction inside with
  | nil => exact absurd rfl hne
  | cons c inside ih =>
    obtain ⟨hc, hinside⟩ := not_or.mp (List.mem_cons.not.mp hnewline)
    rw [List.cons_append]
    rcases lines_cons_cases c (inside ++ after) with ⟨rfl, -⟩ | ⟨rfl, hhead, -⟩ | ⟨-, -, h⟩
    · exact absurd rfl hc
    · -- The `\n` would be the next character of the part, or the one behind it.
      cases inside with
      | nil => exact absurd ⟨rfl, hhead⟩ hreturn
      | cons d inside =>
        cases hhead
        exact absurd List.mem_cons_self hinside
    · cases inside with
      | nil => exact ⟨_, congrArg List.head? h⟩
      | cons d inside =>
        obtain ⟨right, hright⟩ := ih (List.cons_ne_nil _ _) hinside hreturn
        refine ⟨right, ?_⟩
        rw [h, List.head?_cons, List.headD_eq_head?_getD, hright]
        rfl

/-- A part of a text that stands on one line is a part of the line of its number, behind the last
line of what stands before it. -/
theorem lines_at (before : List Char) {inside after : List Char} (h : OnLine inside after) :
    ∃ right, (lines (before ++ (inside ++ after)))[before.count '\n']? =
      some (lastLine before ++ inside ++ right) := by
  -- Up to its end, the part stands on one line with what stands before it on its line.
  have honline : OnLine (lastLine before ++ inside) after := by
    obtain ⟨hne, hnewline, hreturn⟩ := h
    refine ⟨List.append_ne_nil_of_right_ne_nil _ hne, ?_, ?_⟩
    · rw [List.mem_append, not_or]
      exact ⟨newline_not_mem_lastLine before, hnewline⟩
    · rw [List.getLast?_append_of_ne_nil _ hne]
      exact hreturn
  obtain ⟨right, hfirst⟩ := exists_first_line honline
  refine ⟨right, ?_⟩
  rw [List.append_assoc] at hfirst
  rcases eq_lastLine_or before with ⟨hnone, hsame⟩ | ⟨earlier, hearlier⟩
  · rw [hsame] at hfirst ⊢
    rw [List.count_eq_zero_of_not_mem hnone, ← List.head?_eq_getElem?, hfirst]
  · obtain ⟨passed, hlines, hlength⟩ :=
      lines_behind_newline earlier (lastLine before ++ (inside ++ after))
    have hcount : before.count '\n' = passed.length := by
      rw [hearlier, List.count_append, List.count_cons_self, hlength,
        List.count_eq_zero_of_not_mem (newline_not_mem_lastLine before)]
    have htext : before ++ (inside ++ after) =
        earlier ++ '\n' :: (lastLine before ++ (inside ++ after)) := by
      conv_lhs => rw [hearlier]
      rw [List.append_assoc, List.cons_append]
    rw [htext, hlines, hcount, List.getElem?_append_right (Nat.le_refl _), Nat.sub_self,
      ← List.head?_eq_getElem?, hfirst]

end Text

end EntityQuery
