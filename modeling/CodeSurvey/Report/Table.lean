import CodeSurvey.Text.Width

/-!
# Tables

Tables drawn with lines. Every column is as wide as its widest line and a blank
on both sides; a cell may have several lines. Nothing is ever cut or wrapped.
-/

namespace CodeSurvey

/-- The characters of a horizontal line. -/
structure TableRule where
  left : String
  fill : Char
  cross : String
  right : String

/-- The lines of a table. -/
structure TableStyle where
  top : TableRule
  belowHeader : TableRule
  between : TableRule
  bottom : TableRule
  outer : String
  inner : String

namespace TableStyle

/-- Full lines around the table, dashed lines within. -/
def full : TableStyle where
  top := ⟨"┌", '─', "┬", "┐"⟩
  belowHeader := ⟨"╞", '═', "╪", "╡"⟩
  between := ⟨"├", '╌', "┼", "┤"⟩
  bottom := ⟨"└", '─', "┴", "┘"⟩
  outer := "│"
  inner := "┆"

end TableStyle

/-- The lines of a cell. -/
abbrev Cell := List String

structure Table where
  header : List String
  rows : List (List String)

namespace Table

def cell (s : String) : Cell := s.splitOn "\n"

def cellWidth (c : Cell) : Nat := (c.map textWidth).foldl max 0

/-- The widths of the columns, blanks included. -/
def widths (t : Table) : List Nat :=
  let widest (a b : List Nat) : List Nat := List.zipWith max a b
  let widthsOf (row : List String) : List Nat := row.map fun s => cellWidth (cell s) + 2
  t.rows.foldl (fun w row => widest w (widthsOf row)) (widthsOf t.header)

/-- A horizontal line over all columns. -/
def rule (r : TableRule) (widths : List Nat) : String :=
  let parts := widths.map fun w => String.ofList (List.replicate w r.fill)
  r.left ++ r.cross.intercalate parts ++ r.right

/-- A line of a cell, filled with blanks. -/
def filled (width : Nat) (line : String) : String :=
  " " ++ line ++ String.ofList (List.replicate (width - 1 - textWidth line) ' ')

/-- The lines of a row. A cell with fewer lines than others goes on empty. -/
def rowLines (style : TableStyle) (widths : List Nat) (row : List String) : List String :=
  let cells := row.map cell
  let height := (cells.map List.length).foldl max 0
  (List.range height).map fun i =>
    let parts := List.zipWith (fun w (c : Cell) => filled w (c.getD i "")) widths cells
    style.outer ++ style.inner.intercalate parts ++ style.outer

def lines (style : TableStyle) (t : Table) : List String :=
  let w := t.widths
  let rows := t.rows.map (rowLines style w)
  [rule style.top w] ++ rowLines style w t.header ++ [rule style.belowHeader w]
    ++ List.flatten (rows.intersperse [rule style.between w]) ++ [rule style.bottom w]

end Table

end CodeSurvey
