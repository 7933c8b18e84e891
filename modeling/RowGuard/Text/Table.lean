import RowGuard.Text.Blank
import RowGuard.Text.Width

/-!
# Tables in plain text

A table with a header is drawn with borders of plus signs, dashes and bars.
Every column is as wide as its widest line, with a blank on both sides; text
stands on the left.
-/

namespace RowGuard.Text

/-- A table: the titles of its columns, and rows with a cell for each of
them. -/
structure Table where
  header : List String
  rows : List (List String)
deriving DecidableEq, Repr

namespace Table

/-- The lines of a cell. -/
def cellLines (cell : String) : List (List Char) :=
  segments '\n' cell.toList

/-- The width of the widest line of a cell. -/
def cellWidth (cell : String) : Nat :=
  ((cellLines cell).map width).foldl max 0

/-- The widths of the columns; none is narrower than one character. -/
def columnWidths (t : Table) : List Nat :=
  t.rows.foldl (fun widths row => widths.zipWith max (row.map cellWidth))
    (t.header.map fun title => max 1 (cellWidth title))

/-- A line of the border. -/
def rule (left fill inner right : Char) (widths : List Nat) : List Char :=
  left :: [inner].intercalate
    (widths.map fun w => List.replicate (w + 2) fill) ++ [right]

/-- A line of a cell, filled up to a width. -/
def pad (w : Nat) (line : List Char) : List Char :=
  ' ' :: line ++ List.replicate (w - width line) ' ' ++ [' ']

/-- The lines of a row, as many as its highest cell has. -/
def rowLines (widths : List Nat) (row : List String) : List (List Char) :=
  let cells := row.map cellLines
  let height := (cells.map List.length).foldl max 0
  (List.range height).map fun i =>
    let line := widths.zipWith (fun w cell => pad w (cell[i]?.getD [])) cells
    '|' :: ['|'].intercalate line ++ ['|']

/-- The lines of a table. -/
def lines (t : Table) : List (List Char) :=
  let widths := t.columnWidths
  let edge := rule '+' '-' '+' '+' widths
  let separator := rule '|' '-' '+' '|' widths
  [edge] ++ rowLines widths t.header ++ [rule '+' '=' '=' '+' widths] ++
    [separator].intercalate (t.rows.map (rowLines widths)) ++ [edge]

/-- The text of a table. -/
def render (t : Table) : String :=
  String.ofList (['\n'].intercalate t.lines)

end Table

end RowGuard.Text
