import Chronicle.Screen.Style
/-!
The grid of cells that a screen consists of, and the areas drawn into.

A symbol is put into one cell, and the cells behind it that it is wide enough to cover are left
alone; what they hold is not seen.  Drawing outside the grid changes nothing.
-/

namespace Chronicle.Screen

/-- A cell: what it shows and how it looks. -/
structure Cell where
  symbol : Symbol := .blank
  fg : Color := .reset
  bg : Color := .reset
  bold : Bool := false
  crossed : Bool := false
deriving DecidableEq, Repr, Inhabited

namespace Cell

/-- Lay a style over a cell. -/
def withStyle (c : Cell) (s : Style) : Cell :=
  { c with
    fg := s.fg.getD c.fg
    bg := s.bg.getD c.bg
    bold := c.bold || s.bold
    crossed := c.crossed || s.crossed }

/-- The look of a cell as a text. -/
def styleText (c : Cell) : String := Style.text ⟨some c.fg, some c.bg, c.bold, c.crossed⟩

end Cell

/-- A rectangle of cells. -/
structure Area where
  x : Nat
  y : Nat
  width : Nat
  height : Nat
deriving DecidableEq, Repr

namespace Area

def isEmpty (a : Area) : Bool := a.width = 0 || a.height = 0

/-- The area inside a frame of one cell. -/
def inside (a : Area) : Area := ⟨a.x + 1, a.y + 1, a.width - 2, a.height - 2⟩

/-- The area without its first column. -/
def padded (a : Area) : Area := ⟨a.x + 1, a.y, a.width - 1, a.height⟩

/-- The part of a length that a percentage makes, rounded to the nearest whole. -/
def share (percent length : Nat) : Nat := (2 * percent * length + 100) / 200

/-- Divide an area into a left part of the given percentage and the rest. -/
def splitColumns (a : Area) (percent : Nat) : Area × Area :=
  let left := share percent a.width
  (⟨a.x, a.y, left, a.height⟩, ⟨a.x + left, a.y, a.width - left, a.height⟩)

/-- Divide an area into an upper part of the given percentage and the rest. -/
def splitRows (a : Area) (percent : Nat) : Area × Area :=
  let upper := share percent a.height
  (⟨a.x, a.y, a.width, upper⟩, ⟨a.x, a.y + upper, a.width, a.height - upper⟩)

/-- Divide an area into its last row and what is above. -/
def splitLastRow (a : Area) : Area × Area :=
  (⟨a.x, a.y, a.width, a.height - 1⟩, ⟨a.x, a.y + (a.height - 1), a.width, min a.height 1⟩)

end Area

/-- The cells of a screen, row by row. -/
structure Grid where
  rows : Array (Array Cell)
deriving DecidableEq, Repr

namespace Grid

/-- The grid of the given size in which nothing was drawn. -/
def blank (width height : Nat) : Grid := ⟨Array.replicate height (Array.replicate width {})⟩

/-- Change one cell. -/
def modify (g : Grid) (x y : Nat) (f : Cell → Cell) : Grid :=
  ⟨g.rows.modify y (·.modify x f)⟩

/-- Put a symbol into a cell and lay a style over it. -/
def put (g : Grid) (x y : Nat) (symbol : Symbol) (style : Style) : Grid :=
  g.modify x y fun c => { c with symbol }.withStyle style

/-- Put a symbol behind what a cell holds and lay a style over it. -/
def putBehind (g : Grid) (x y : Nat) (symbol : Symbol) (style : Style) : Grid :=
  g.modify x y fun c => { c with symbol := c.symbol.append symbol }.withStyle style

/-- Empty some cells of a row. -/
def clear (g : Grid) (x y count : Nat) : Grid :=
  (List.range count).foldl (fun g i => g.modify (x + i) y fun _ => {}) g

/-- Lay a style over all cells of an area. -/
def paint (g : Grid) (a : Area) (style : Style) : Grid :=
  ⟨g.rows.mapIdx fun y row =>
    if a.y ≤ y && y < a.y + a.height then
      row.mapIdx fun x c => if a.x ≤ x && x < a.x + a.width then c.withStyle style else c
    else row⟩

/-- The cells of a row as they are seen: a cell behind a symbol of more than one cell is empty. -/
def seenCells (covered : Bool) : List Cell → List Cell
  | [] => []
  | c :: rest => (if covered then {} else c) :: seenCells (decide (1 < c.symbol.width)) rest

/-- A row has as many cells when it is seen. -/
theorem length_seenCells (covered : Bool) (cells : List Cell) :
    (seenCells covered cells).length = cells.length := by
  induction cells generalizing covered with
  | nil => rfl
  | cons c rest ih => simp [seenCells, ih]

/-- What the cells show, one after the other. -/
def cellsText (cells : List Cell) : String := String.join (cells.map (·.symbol.text))

/-- The text of a row, the blanks at its end left out. -/
def rowText (row : Array Cell) : String :=
  cellsText ((seenCells false row.toList).reverse.dropWhile (·.symbol == .blank)).reverse

/-- A row as the longest pieces of one look. -/
def rowSpans (row : Array Cell) : List (String × String) :=
  ((seenCells false row.toList).splitBy fun a b => a.styleText == b.styleText).map fun cells =>
    (cellsText cells, (cells.head?.map Cell.styleText).getD "")

end Grid

end Chronicle.Screen
