import ApiTree.Text.Wrap

/-!
# Drawn tables

A table drawn with lines: a heavy head above a light body, and the title centred above both, over as
many lines as it needs. Every column is as wide as its widest line, with a blank at either side. Rows
that are too short are filled up, and a row that is too long makes a column without a header.
-/

set_option autoImplicit false

namespace ApiTree.Console

/-- The characters that draw a line across a table: its left end, the line, a crossing, its right
end. -/
structure Ruler where
  left : Char
  line : Char
  crossing : Char
  right : Char
  deriving DecidableEq, Repr, Inhabited

/-- The line above the head. -/
def topRuler : Ruler := ⟨'┏', '━', '┳', '┓'⟩

/-- The line between head and body. -/
def headRuler : Ruler := ⟨'┡', '━', '╇', '┩'⟩

/-- The line below the body. -/
def bottomRuler : Ruler := ⟨'└', '─', '┴', '┘'⟩

/-- Pieces between two borders, with a separator between the pieces. -/
def framed (left separator right : Char) (pieces : List (List Char)) : List Char :=
  left :: (List.intercalate [separator] pieces ++ [right])

/-- A line across a table with columns of the given widths. -/
def Ruler.draw (r : Ruler) (widths : List Nat) : List Char :=
  framed r.left r.crossing r.right (widths.map fun w => List.replicate (w + 2) r.line)

/-- The lines of a cell. -/
def cellLines (cell : String) : List (List Char) := Text.splitWhere (· == '\n') cell.toList

/-- The width of a cell. -/
def cellWidth (cell : String) : Nat := ((cellLines cell).map Text.width).foldl max 0

/-- A line of a cell with a blank at either side, filled up to the width of its column. -/
def padded (width : Nat) (line : List Char) : List Char :=
  ' ' :: (line ++ List.replicate (width - Text.width line + 1) ' ')

/-- The lines of a row between the given borders. -/
def rowLines (border : Char) (widths : List Nat) (cells : List String) : List (List Char) :=
  let columns := cells.map cellLines
  let height := (columns.map List.length).foldl max 0
  (List.range height).map fun i =>
    framed border border border
      (List.zipWith (fun width column => padded width (column.getD i [])) widths columns)

/-- A text in the middle of a line, the odd blank at its end. -/
def centred (width : Nat) (text : List Char) : List Char :=
  let excess := width - Text.width text
  List.replicate (excess / 2) ' ' ++ (text ++ List.replicate (excess - excess / 2) ' ')

/-- The lines of a title above a table of the given width; none for an empty title. -/
def titleLines (width : Nat) (title : String) : List (List Char) :=
  if title = "" then []
  else ((cellLines title).flatMap (Text.wrap width)).map fun line =>
    centred width (Text.dropEndWhile Text.isBlank line)

/-- The row with as many cells as there are columns. -/
def filled (columns : Nat) (row : List String) : List String :=
  row ++ List.replicate (columns - row.length) ""

/-- A table as it is drawn. A table without columns is an empty line. -/
def drawTable (headers : List String) (rows : List (List String)) (title : Option String) :
    String :=
  let columns := (rows.map List.length).foldl max headers.length
  if columns = 0 then "\n"
  else
    let headers := filled columns headers
    let rows := rows.map (filled columns)
    let widths := (List.range columns).map fun i =>
      ((headers :: rows).map fun row => cellWidth (row.getD i "")).foldl max 0
    let above := ((title.map (titleLines (widths.foldl (· + ·) 0 + 3 * columns + 1))).toList).flatten
    let lines := above ++ topRuler.draw widths :: rowLines '┃' widths headers ++
      headRuler.draw widths :: rows.flatMap (rowLines '│' widths) ++ [bottomRuler.draw widths]
    String.ofList (lines.flatMap (· ++ ['\n']))

end ApiTree.Console
