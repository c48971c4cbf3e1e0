/-!
# Tables

A table of texts with a title above and a caption below. Cells may carry marks for a style, such as
`[red]no[/red]`, which a console that knows styles turns into colours; drawn as plain text they are
left out.
-/

namespace GoalSearch.Command

structure Table where
  title : String
  columns : List String
  rows : List (List String)
  caption : String
deriving Repr, DecidableEq

namespace Table

/-- A text without its marks; `inside` is set within one. -/
def unmarked (inside : Bool) : List Char → List Char
  | [] => []
  | '[' :: rest => unmarked true rest
  | ']' :: rest => unmarked false rest
  | c :: rest => if inside then unmarked inside rest else c :: unmarked inside rest

def width (rows : List (List String)) (k : Nat) : Nat :=
  (rows.map fun row => (row.getD k "").length).foldl max 0

def drawRow (widths : List Nat) (row : List String) : String :=
  let cells := (row.zip widths).map fun (cell, width) =>
    cell ++ String.ofList (List.replicate (width - cell.length) ' ')
  "  ".intercalate cells

def draw (t : Table) : List String :=
  let rows := t.columns :: t.rows.map (·.map fun cell => String.ofList (unmarked false cell.toList))
  let widths := (List.range t.columns.length).map (width rows)
  [t.title] ++ rows.map (drawRow widths) ++ [t.caption]

end Table

end GoalSearch.Command
