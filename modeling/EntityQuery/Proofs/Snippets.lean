import EntityQuery.Filter.Diagnostic
import EntityQuery.Proofs.Lines

/-!
# Marks under a part of a text

A diagnostic shows the line of a text that it is about, and marks below. The row of the text begins
with the number of the line (`Diagnostic.margin`), the row of marks with as many blanks as there are
characters before the part on its line (`Diagnostic.indent`), so the caret is under the first
character of the part as long as both are of one width. The tildes behind the caret are counted by
the bytes of the part and cut at the end of the line, both in `Diagnostic.tildes`.

`Diagnostic.snippet_of_onLine` says what is shown of a part on one line, and
`Diagnostic.render_marks` where the marks are then and how many: under the part where the number has
three digits at most, never too few, and too many when the part has characters of several bytes and
the line goes on behind it.
-/

namespace EntityQuery

namespace Diagnostic

open Text (OnLine byteLength lastLine)

/-! ## Widths -/

/-- What stands before a part of a text in the row that shows its line: the number of the line, and
the characters before it on the line. -/
def margin (number : Nat) (left : List Char) : List Char :=
  (gutter number).toList ++ '|' :: ' ' :: left

/-- What stands before the caret, for a part behind some characters of its line. -/
def indent (left : List Char) : List Char :=
  ' ' :: ' ' :: ' ' :: '|' :: List.replicate (left.length + 1) ' '

/-- The number of tildes under a part of a text with the rest of its line. -/
def tildes (inside right : List Char) : Nat :=
  min (byteLength inside - 1) (inside.length + right.length - 1)

/-- The digits of a number before its line. -/
theorem toList_gutter (n : Nat) :
    (gutter n).toList =
      List.replicate (3 - (Nat.toDigits 10 n).length) ' ' ++ Nat.toDigits 10 n := by
  unfold gutter
  dsimp only
  rw [Nat.toString_eq_ofList_toDigits, String.toList_append, String.toList_ofList,
    String.toList_ofList, String.length_ofList]

/-- A number of less than four digits takes three columns, and another one a column for each. -/
theorem length_gutter (n : Nat) :
    (gutter n).toList.length = 3 + ((Nat.toDigits 10 n).length - 3) := by
  rw [toList_gutter, List.length_append, List.length_replicate]
  omega

/-- The row of a line begins as far to the right as that of the marks, or farther, by the digits of
its number behind the third. -/
theorem length_margin (number : Nat) (left : List Char) :
    (margin number left).length =
      (indent left).length + ((Nat.toDigits 10 number).length - 3) := by
  unfold margin indent
  rw [List.length_append, length_gutter]
  simp only [List.length_cons, List.length_replicate]
  omega

/-- The caret is under the part of the text when the number of the line has three digits at most. -/
theorem length_indent_eq_iff (number : Nat) (left : List Char) :
    (indent left).length = (margin number left).length ↔ number < 1000 := by
  have hdigits : (Nat.toDigits 10 number).length ≤ 3 ↔ number < 10 ^ 3 :=
    Nat.length_toDigits_le_iff (by decide) (by decide)
  rw [length_margin]
  omega

/-- The caret and the tildes are as many as the bytes of the part, or as the characters up to the
end of the line if these are fewer. -/
theorem tildes_add_one {inside : List Char} (h : inside ≠ []) (right : List Char) :
    tildes inside right + 1 = min (byteLength inside) (inside.length + right.length) := by
  have hpos := List.length_pos_iff.mpr h
  have hbytes := Text.length_le_byteLength inside
  unfold tildes
  omega

/-- The caret and the tildes are as many as the characters of the part when each takes one byte, or
the line ends with the part. -/
theorem tildes_add_one_eq_iff {inside : List Char} (h : inside ≠ []) (right : List Char) :
    tildes inside right + 1 = inside.length ↔
      (∀ c ∈ inside, c.utf8Size = 1) ∨ right = [] := by
  have hbytes := Text.length_le_byteLength inside
  rw [tildes_add_one h, ← Text.byteLength_eq_length_iff, ← List.length_eq_zero_iff]
  omega

/-! ## Rows -/

/-- What is rendered before the position. -/
def opening (d : Diagnostic) : String :=
  (d.kind?.elim "error" fun kind => "error[" ++ kind ++ "]") ++ ": " ++ d.message ++ "\n"

/-- What is rendered behind the marks. -/
def closing (d : Diagnostic) : String := d.hint?.elim "" fun hint => "   = hint: " ++ hint ++ "\n"

/-- The row of a line is one row. -/
theorem newline_not_mem_row {number : Nat} {left rest : List Char} (h : '\n' ∉ left ++ rest) :
    '\n' ∉ margin number left ++ rest := by
  have hdigits : '\n' ∉ Nat.toDigits 10 number := by
    intro hmem
    have hdigit := Nat.isDigit_of_mem_toDigits (by decide) (by decide) hmem
    exact absurd hdigit (by decide)
  have hblanks : '\n' ∉ List.replicate (3 - (Nat.toDigits 10 number).length) ' ' := by
    intro hmem
    exact absurd (List.eq_of_mem_replicate hmem) (by decide)
  unfold margin
  rw [toList_gutter, List.append_assoc]
  simpa [hdigits, hblanks] using h

/-- The row of a line begins with its margin. -/
theorem row_eq (number : Nat) (left rest : List Char) :
    gutter number ++ "| " ++ String.ofList (left ++ rest) =
      String.ofList (margin number left ++ rest) := by
  rw [← String.toList_inj]
  simp [margin]

/-- The row of marks under a part of a line begins with its indent. -/
theorem marks_row_eq (left inside right : List Char) (start : Nat) :
    "   |" ++ marks (left ++ inside ++ right) (left.length + 1) ⟨start, start + byteLength inside⟩ =
      String.ofList (indent left ++ '^' :: List.replicate (tildes inside right) '~') := by
  have hsize : Span.size ⟨start, start + byteLength inside⟩ = byteLength inside :=
    Nat.add_sub_cancel_left ..
  have hrest : (left ++ inside ++ right).length - (left.length + 1) =
      inside.length + right.length - 1 := by
    rw [List.length_append, List.length_append]
    omega
  unfold marks
  rw [hsize, hrest]
  rw [← String.toList_inj]
  simp [indent, tildes]

/-- What is shown of a part of a text that stands on one line: its line, with the number of the line
and what stands before it there, and the marks under it. -/
theorem snippet_of_onLine (before : List Char) {inside after : List Char}
    (hline : OnLine inside after) :
    ∃ right, (Text.lines (before ++ (inside ++ after)))[before.count '\n']? =
        some (lastLine before ++ inside ++ right) ∧
      snippet (before ++ (inside ++ after))
          ⟨byteLength before, byteLength before + byteLength inside⟩ =
        "  --> line " ++ toString (before.count '\n' + 1) ++ ":" ++
          toString ((lastLine before).length + 1) ++ "\n   |\n" ++
          String.ofList (margin (before.count '\n' + 1) (lastLine before) ++ inside ++ right) ++
          "\n" ++
          String.ofList
            (indent (lastLine before) ++ '^' :: List.replicate (tildes inside right) '~') ++
          "\n" := by
  obtain ⟨right, hright⟩ := Text.lines_at before hline
  refine ⟨right, hright, ?_⟩
  unfold snippet
  dsimp only
  rw [Position.ofOffset_append]
  dsimp only
  rw [Nat.add_sub_cancel, hright]
  dsimp only
  rw [← marks_row_eq _ _ _ (byteLength before), List.append_assoc (margin _ _), ← row_eq,
    ← List.append_assoc]
  have hopens : "\n   |\n" = "\n" ++ "   |\n" := rfl
  have hmarks : "\n   |" = "\n" ++ "   |" := rfl
  rw [hopens, hmarks]
  simp only [String.append_assoc]

/-- Where the marks under a part of a text stand, when it is not empty and stands on one line
without the line end, and how many they are. The row above them shows this line behind its number,
and the part is a part of it. The caret is under the first character of the part exactly when the
number of the line has three digits at most, and one column too far to the left for each further
digit. With the tildes it covers as many columns as the part has bytes, or as there are characters
from the part on up to the end of the line when these are fewer: never less than the part, and
exactly the part when each of its characters takes one byte or the line ends with it. -/
theorem render_marks {d : Diagnostic} {source : String} {before inside after : List Char}
    (hsource : source.toList = before ++ (inside ++ after)) (hline : OnLine inside after)
    (hspan : d.span = ⟨byteLength before, byteLength before + byteLength inside⟩) :
    let number := before.count '\n' + 1
    let left := lastLine before
    ∃ right, (Text.lines source.toList)[number - 1]? = some (left ++ inside ++ right) ∧
      d.render source =
        d.opening ++ "  --> line " ++ toString number ++ ":" ++ toString (left.length + 1) ++
          "\n   |\n" ++ String.ofList (margin number left ++ inside ++ right) ++ "\n" ++
          String.ofList (indent left ++ '^' :: List.replicate (tildes inside right) '~') ++ "\n" ++
          d.closing ∧
      '\n' ∉ margin number left ++ inside ++ right ∧
      (margin number left).length =
        (indent left).length + ((Nat.toDigits 10 number).length - 3) ∧
      ((indent left).length = (margin number left).length ↔ number < 1000) ∧
      tildes inside right + 1 = min (byteLength inside) (inside.length + right.length) ∧
      inside.length ≤ tildes inside right + 1 ∧
      (tildes inside right + 1 = inside.length ↔
        (∀ c ∈ inside, c.utf8Size = 1) ∨ right = []) := by
  intro number left
  obtain ⟨right, hright, hsnippet⟩ := snippet_of_onLine before hline
  rw [← hsource] at hright hsnippet
  refine ⟨right, hright, ?_, ?_, length_margin number left, length_indent_eq_iff number left,
    tildes_add_one hline.ne_nil right, ?_, tildes_add_one_eq_iff hline.ne_nil right⟩
  · have hrender : d.render source = d.opening ++ snippet source.toList d.span ++ d.closing := rfl
    rw [hrender, hspan, hsnippet]
    simp only [String.append_assoc]
    rfl
  · -- The row is a line behind its number, and neither has a line end.
    have hnewline := Text.newline_not_mem_lines _ _ (List.mem_of_getElem? hright)
    rw [List.append_assoc] at hnewline ⊢
    exact newline_not_mem_row hnewline
  · have hbytes := Text.length_le_byteLength inside
    rw [tildes_add_one hline.ne_nil]
    omega

end Diagnostic

namespace Shop

open Text (OnLine byteLength lastLine)
open Diagnostic (margin indent tildes)

/-- A condition on two lines, with a mistake on the second one. -/
def twoLines : String := "name eq 'é'\nor id = 5"

/-- The mistake on the second line. -/
def equalsSign : Diagnostic :=
  ⟨none, "unrecognized input '='", ⟨19, 20⟩, some "use 'eq' for equality comparison"⟩

/-- The mistake on the second line is marked by a caret under it, and no tilde. -/
theorem equalsSign_marked :
    twoLines.toList = "name eq 'é'\nor id ".toList ++ (['='] ++ " 5".toList) ∧
      OnLine ['='] " 5".toList ∧
      ∃ right, (Text.lines twoLines.toList)[1]? = some ("or id ".toList ++ ['='] ++ right) ∧
        equalsSign.render twoLines =
          "error: unrecognized input '='\n  --> line 2:7\n   |\n" ++
            String.ofList (margin 2 "or id ".toList ++ ['='] ++ right) ++ "\n" ++
            String.ofList (indent "or id ".toList ++ ['^']) ++ "\n" ++
            "   = hint: use 'eq' for equality comparison\n" ∧
        (indent "or id ".toList).length = (margin 2 "or id ".toList).length := by
  have hsource : twoLines.toList = "name eq 'é'\nor id ".toList ++ (['='] ++ " 5".toList) := by
    decide +kernel
  have hline : OnLine ['='] " 5".toList :=
    ⟨List.cons_ne_nil _ _, by decide, fun h => absurd h.1 (by decide)⟩
  obtain ⟨right, hright, hrender, -, -, hcaret, -, -, hcount⟩ :=
    Diagnostic.render_marks (d := equalsSign) hsource hline (by decide +kernel)
  have hnumber : "name eq 'é'\nor id ".toList.count '\n' + 1 = 2 := by decide +kernel
  have hleft : lastLine "name eq 'é'\nor id ".toList = "or id ".toList := by decide +kernel
  have hbyte : ∀ c ∈ ['='], c.utf8Size = 1 := List.forall_mem_singleton.mpr (by decide)
  have htildes : tildes ['='] right = 0 := Nat.succ.inj (hcount.mpr (.inl hbyte))
  rw [hnumber, hleft] at hright hrender hcaret
  rw [htildes] at hrender
  exact ⟨hsource, hline, right, hright, hrender, hcaret.mpr (by decide)⟩

/-- A character that is not known, at the beginning of a condition. -/
def accent : Diagnostic := ⟨none, "unrecognized input 'é'", ⟨0, 2⟩, none⟩

/-- One character of two bytes gets two marks. -/
theorem accent_marked_twice :
    "é eq 1".toList = [] ++ (['é'] ++ " eq 1".toList) ∧ OnLine ['é'] " eq 1".toList ∧
      accent.span = ⟨byteLength [], byteLength [] + byteLength ['é']⟩ ∧
      ∃ marks, (Text.lines (accent.render "é eq 1").toList)[4]? = some marks ∧
        marks = "   | ^~".toList ∧ marks.count '^' + marks.count '~' ≠ ['é'].length := by
  refine ⟨by decide +kernel, ⟨List.cons_ne_nil _ _, by decide, fun h => absurd h.1 (by decide)⟩,
    by decide +kernel, "   | ^~".toList, by decide +kernel, rfl, by decide +kernel⟩

end Shop

end EntityQuery
