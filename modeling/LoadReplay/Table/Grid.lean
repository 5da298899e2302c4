import LoadReplay.Text.Split
import LoadReplay.Text.Width

/-!
# Tables in box-drawing characters

A grid of text with a line around every cell.  A column is as wide as its widest line, a row as high
as its highest cell, and cells are aligned to the left with one blank on both sides.
-/

namespace LoadReplay.Table

/-- The lines of a cell. -/
def cellLines (cell : String) : List String :=
  (Text.splitAll '\n' cell.toList).map String.ofList

/-- The columns that the widest line of a cell takes. -/
def cellColumns (cell : String) : Nat := ((cellLines cell).map Text.columns).foldl max 0

/-- The widths of the columns of a grid: entry by entry the greatest width of a cell. -/
def columnWidths : List (List String) → List Nat
  | [] => []
  | [row] => row.map cellColumns
  | row :: rest => List.zipWith max (row.map cellColumns) (columnWidths rest)

/-- `n` copies of a character. -/
def repeated (n : Nat) (c : Char) : String := String.ofList (List.replicate n c)

/-- A horizontal line with the given ends and crossings. -/
def rule (left crossing right : String) (widths : List Nat) : String :=
  left ++ Text.glue crossing (widths.map fun w => repeated (w + 2) '─') ++ right

/-- One line of a row: the line of each cell, filled up to the width of its column. -/
def rowLine (widths : List Nat) (cells : List String) : String :=
  let filled := List.zipWith (fun w s => " " ++ s ++ repeated (w - Text.columns s) ' ' ++ " ")
    widths cells
  "│" ++ Text.glue "│" filled ++ "│"

/-- The lines of a row.  Cells with fewer lines than the highest one end in empty lines. -/
def rowLines (widths : List Nat) (row : List String) : List String :=
  let cells := row.map cellLines
  let height := (cells.map List.length).foldl max 1
  (List.range height).map fun i => rowLine widths (cells.map fun lines => (lines[i]?).getD "")

/-- The lines of a grid whose rows all have the same number of cells. -/
def lines (rows : List (List String)) : List String :=
  let widths := columnWidths rows
  let bodies := rows.map (rowLines widths)
  [rule "┌" "┬" "┐" widths]
    ++ List.intercalate [rule "├" "┼" "┤" widths] bodies
    ++ [rule "└" "┴" "┘" widths]

end LoadReplay.Table
