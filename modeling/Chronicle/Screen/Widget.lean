import Chronicle.Screen.Grid
/-!
What panes are drawn with: frames with a title, paragraphs, and lists of rows.

A line that is longer than its area is cut at the right.  A paragraph draws the styles of a line's
spans where there is text; a list lays the style of a row over its whole width.  A symbol that takes
no cell is left out of a paragraph; in a list it goes into the cell before it, or together with the
next symbol into the first cell of its span.
-/

namespace Chronicle.Screen

/-- Where the lines of a paragraph stand. -/
inductive Alignment
  | left
  | right
deriving DecidableEq, Repr

namespace Grid

/-! ### Lists and frames -/

/-- Draw symbols into row `y` from `x` on, but not beyond the cell before `right`.  The text they
belong to began at `start`, and `first` says that none of it was drawn yet. -/
def drawSymbols (g : Grid) (right y start : Nat) (style : Style) :
    (first : Bool) → (x : Nat) → List Symbol → Grid
  | _, _, [] => g
  | first, x, s :: rest =>
    if right < x + s.width then g
    else
      let g :=
        if first then g.put x y s style
        else if x = start then g.putBehind x y s style
        else if s.width = 0 then g.putBehind (x - 1) y s style
        else g.put x y s style
      drawSymbols (g.clear (x + 1) y (s.width - 1)) right y start style false (x + s.width) rest

/-- Draw a piece of text into row `y` from `x` on, but not beyond the cell before `right`. -/
def drawSpan (g : Grid) (right y x : Nat) (span : Span) : Grid :=
  if right ≤ x || span.width = 0 then g
  else g.drawSymbols right y x span.style true x span.symbols

/-- Draw pieces of text one behind the other. -/
def drawSpans (g : Grid) (right y : Nat) : (x : Nat) → List Span → Grid
  | _, [] => g
  | x, span :: rest => drawSpans (g.drawSpan right y x span) right y (x + span.width) rest

/-- Draw a list of rows into an area. -/
def drawList (g : Grid) (a : Area) (rows : List Line) : Grid :=
  if a.isEmpty then g
  else ((rows.take a.height).zipIdx a.y).foldl
    (fun g (l, y) =>
      (g.paint ⟨a.x, y, a.width, 1⟩ l.style).drawSpans (a.x + a.width) y a.x l.spans) g

/-- Draw a frame along the edge of an area, with a title in its upper side.  Where an area is too
narrow for all of the frame, its upper left parts are drawn last. -/
def drawFrame (g : Grid) (a : Area) (title : String) (style : Style) : Grid :=
  if a.isEmpty then g
  else
    let right := a.x + a.width - 1
    let bottom := a.y + a.height - 1
    let column (g : Grid) (x : Nat) : Grid :=
      (List.range a.height).foldl (fun g i => g.put x (a.y + i) (.sign '│') style) g
    let row (g : Grid) (y : Nat) : Grid :=
      (List.range a.width).foldl (fun g i => g.put (a.x + i) y (.sign '─') style) g
    let g := row (column (row (column g a.x) a.y) right) bottom
    let g := g.put right bottom (.sign '┘') style
    let g := g.put right a.y (.sign '┐') style
    let g := g.put a.x bottom (.sign '└') style
    let g := g.put a.x a.y (.sign '┌') style
    g.drawSpan (a.x + a.width - 1) a.y (a.x + 1) ⟨title, style⟩

/-! ### Paragraphs -/

/-- The lines that a paragraph of the given height shows after skipping some. -/
def shownLines (lines : List Line) (skip height : Nat) : List Line := (lines.drop skip).take height

/-- The symbols that are drawn into so many cells, some of which are used.  A symbol that is wider
than all the cells is left out; the first other one that does not fit ends the line. -/
def fitting {α : Type} (cells : Nat) : (used : Nat) → List (Symbol × α) → List (Symbol × α)
  | _, [] => []
  | used, (s, look) :: rest =>
    if cells < s.width then fitting cells used rest
    else if cells < used + s.width then []
    else (s, look) :: fitting cells (used + s.width) rest

/-- How many cells symbols take. -/
def totalWidth {α : Type} (symbols : List (Symbol × α)) : Nat :=
  symbols.foldr (fun s width => s.1.width + width) 0

/-- What is drawn fits. -/
theorem totalWidth_fitting {α : Type} (cells used : Nat) (symbols : List (Symbol × α))
    (h : used ≤ cells) : used + totalWidth (fitting cells used symbols) ≤ cells := by
  fun_induction fitting cells used symbols with
  | case1 => simpa [totalWidth] using h
  | case2 used s look rest _ ih => exact ih h
  | case3 => simpa [totalWidth] using h
  | case4 used s look rest _ fits ih =>
    have := ih (by omega)
    simp only [totalWidth, List.foldr_cons] at this ⊢
    omega

/-- Put symbols into the cells of row `y` from `x` on, leaving out those that take none. -/
def putAll (g : Grid) (base : Style) (y : Nat) : (x : Nat) → List (Symbol × Style) → Grid
  | _, [] => g
  | x, (s, style) :: rest =>
    if s.width = 0 then putAll g base y x rest
    else putAll ((g.put x y s base).put x y s style) base y (x + s.width) rest

/-- Draw a line of a paragraph into row `y` of an area. -/
def drawLine (g : Grid) (a : Area) (y : Nat) (alignment : Alignment) (l : Line) : Grid :=
  let shown := fitting a.width 0 l.symbols
  let indent := match alignment with
    | .left => 0
    | .right => a.width - totalWidth shown
  g.putAll l.style y (a.x + indent) shown

/-- Draw a paragraph into an area, without its first `skip` lines. -/
def drawParagraph (g : Grid) (a : Area) (lines : List Line) (style : Style) (skip : Nat)
    (alignment : Alignment) : Grid :=
  if a.isEmpty then g
  else ((shownLines lines skip a.height).zipIdx a.y).foldl
    (fun g (l, y) => g.drawLine a y alignment l) (g.paint a style)

end Grid

end Chronicle.Screen
