import Lowering.Text.Width

/-!
# Framed tables

A table with a head and a body, drawn with box characters.  Each column is as wide as its widest
line; a cell may have several lines.

* `Text.Column`, `Text.Rule`;
* `Text.table`: the lines of a table.
-/

namespace Lowering.Text

/-- A column: its title, and the side on which its body has its blanks. -/
structure Column where
  title : String
  alignRight : Bool := false
  deriving DecidableEq, Repr

/-- The characters of a horizontal rule. -/
structure Rule where
  left : String
  line : String
  cross : String
  right : String
  deriving DecidableEq, Repr

/-- The rule above the head. -/
def Rule.top : Rule := ⟨"┌", "─", "┬", "┐"⟩

/-- The rule below the head. -/
def Rule.head : Rule := ⟨"╞", "═", "╪", "╡"⟩

/-- The rule between two rows. -/
def Rule.row : Rule := ⟨"├", "╌", "┼", "┤"⟩

/-- The rule at the end. -/
def Rule.bottom : Rule := ⟨"└", "─", "┴", "┘"⟩

/-- A text some times over. -/
def repeated (n : Nat) (s : String) : String := String.join (List.replicate n s)

/-- A rule across columns of some widths; a column has a blank on each side. -/
def Rule.across (r : Rule) (widths : List Nat) : String :=
  r.left ++ r.cross.intercalate (widths.map fun w => repeated (w + 2) r.line) ++ r.right

/-- A text filled up with blanks to a width. -/
def padded (alignRight : Bool) (w : Nat) (s : String) : String :=
  let blanks := repeated (w - width s) " "
  if alignRight then blanks ++ s else s ++ blanks

/-- The lines of a cell. -/
def cellLines (s : String) : List String := s.splitOn "\n"

/-- The width that a cell needs. -/
def cellWidth (s : String) : Nat := ((cellLines s).map width).foldl max 0

/-- The widths of columns, given their rows. -/
def columnWidths (rows : List (List String)) : List Nat → List Nat
  | [] => []
  | w :: ws =>
    (rows.filterMap List.head?).foldl (fun m s => max m (cellWidth s)) w ::
      columnWidths (rows.map List.tail) ws

/-- One line of a row; a cell with fewer lines is blank there. -/
def rowLine (layout : List (Bool × Nat)) (cells : List (List String)) (i : Nat) : String :=
  let parts := (layout.zip cells).map fun ((alignRight, w), lines) =>
    " " ++ padded alignRight w (lines[i]?.getD "") ++ " "
  "│" ++ "┆".intercalate parts ++ "│"

/-- The lines of a row. -/
def rowLines (layout : List (Bool × Nat)) (cells : List String) : List String :=
  let cells := cells.map cellLines
  let height := (cells.map List.length).foldl max 1
  (List.range height).map (rowLine layout cells)

/-- The lines of a table. -/
def table (columns : List Column) (rows : List (List String)) : List String :=
  let titles := columns.map Column.title
  let widths := columnWidths (titles :: rows) (columns.map fun _ => 0)
  let head := rowLines (widths.map fun w => (false, w)) titles
  let layout := (columns.map Column.alignRight).zip widths
  let body := (rows.map (rowLines layout)).intersperse [Rule.row.across widths]
  let framed := if rows.isEmpty then [] else Rule.head.across widths :: body.flatten
  [Rule.top.across widths] ++ head ++ framed ++ [Rule.bottom.across widths]

end Lowering.Text
