import InstrumentBus.Text.Width

/-!
# Boxed tables

A header row and further rows of cells, drawn with box characters. Each column is
as wide as its widest line plus a space on both sides, and a row is as high as
its cell with the most lines.
-/

namespace InstrumentBus
namespace Text

structure Table where
  header : List String
  rows : List (List String)

namespace Table

/-- The lines of a cell. -/
def cellLines (cell : String) : List String := cell.splitOn "\n"

def cellWidth (cell : String) : Nat := ((cellLines cell).map lineWidth).foldl Nat.max 0

/-- Column widths, without the spaces around them. -/
def widths (t : Table) : List Nat :=
  t.rows.foldl (fun ws row => List.zipWith Nat.max ws (row.map cellWidth))
    (t.header.map cellWidth)

def fill (c : Char) (n : Nat) : String := String.ofList (List.replicate n c)

/-- A rule: an end, a filling for each column with joints between, an end. -/
def rule (ends : String × String) (filling : Char) (joint : String) (ws : List Nat) : String :=
  ends.1 ++ joint.intercalate (ws.map fun w => fill filling (w + 2)) ++ ends.2

def padded (width : Nat) (line : String) : String :=
  " " ++ line ++ fill ' ' (width - lineWidth line) ++ " "

def line (ws : List Nat) (cells : List String) : String :=
  "│" ++ "┆".intercalate (List.zipWith padded ws cells) ++ "│"

/-- The lines of one row of cells. -/
def rowLines (ws : List Nat) (row : List String) : List String :=
  let cells := row.map cellLines
  let height := (cells.map List.length).foldl Nat.max 1
  (List.range height).map fun i => line ws (cells.map fun c => c.getD i "")

def render (t : Table) : String :=
  let ws := t.widths
  let body := List.flatten (List.intersperse [rule ("├", "┤") '╌' "┼" ws] (t.rows.map (rowLines ws)))
  "\n".intercalate
    ([rule ("┌", "┐") '─' "┬" ws] ++ rowLines ws t.header ++ [rule ("╞", "╡") '═' "╪" ws]
      ++ body ++ [rule ("└", "┘") '─' "┴" ws])

end Table
end Text
end InstrumentBus
