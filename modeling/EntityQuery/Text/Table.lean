import EntityQuery.Text.Blank
import EntityQuery.Text.Width

/-!
# Tables in plain text

A table is drawn with a line of cells for each row and rules between the rows. Cells stand between
blanks, start at the left, and are as wide as the widest one of their column; a cell of several
lines makes its row as high. The rule under the header is doubled.
-/

namespace EntityQuery.Text

/-- A table: a header, and rows of as many cells. -/
structure Table where
  /-- The texts of the header. -/
  header : List String
  /-- The texts of the rows. -/
  rows : List (List String)

namespace Table

/-- The lines of a cell. -/
def cellLines (cell : String) : List (List Char) := splitAt '\n' cell.toList

/-- The width of a cell: that of its widest line. -/
def cellWidth (cell : String) : Nat := ((cellLines cell).map width).foldl max 0

/-- The greater one of each pair of widths. -/
def widest (widths : List Nat) (row : List String) : List Nat :=
  List.zipWith max widths (row.map cellWidth)

/-- The widths of the columns. -/
def columnWidths (t : Table) : List Nat := t.rows.foldl widest (t.header.map cellWidth)

/-- A rule of some character between two ends, with a joint between the columns. -/
def rule (ends : Char) (fill joint : Char) (widths : List Nat) : String :=
  let bars := widths.map fun w => String.ofList (List.replicate (w + 2) fill)
  let ends := String.ofList [ends]
  ends ++ String.intercalate (String.ofList [joint]) bars ++ ends

/-- A line of a cell, filled up to the width of its column. -/
def paddedLine (w : Nat) (line : List Char) : String :=
  String.ofList (line ++ List.replicate (w - width line) ' ')

/-- The lines of a row. -/
def rowLines (widths : List Nat) (row : List String) : List String :=
  let cells := row.map cellLines
  let height := (cells.map List.length).foldl max 0
  (List.range height).map fun i =>
    let line := List.zipWith (fun w cell => paddedLine w (cell[i]?.getD [])) widths cells
    "| " ++ String.intercalate " | " line ++ " |"

/-- The lines of a table. -/
def lines (t : Table) : List String :=
  let widths := t.columnWidths
  let border := rule '+' '-' '+' widths
  let rows := t.rows.map (rowLines widths)
  border :: rowLines widths t.header ++ [rule '+' '=' '=' widths] ++
    (List.intersperse [rule '|' '-' '+' widths] rows).flatten ++ [border]

/-- The text of a table, without a line end behind it. -/
def render (t : Table) : String := String.intercalate "\n" t.lines

end Table

end EntityQuery.Text
