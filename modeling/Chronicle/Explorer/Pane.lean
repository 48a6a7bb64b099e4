import Chronicle.Explorer.Theme
import Chronicle.Screen.Widget
/-!
What the panes of the explorer have in common.

A pane has a frame with a title, and inside it a column of padding.  The number of lines that its
frame leaves room for counts as one at least.  A pane remembers how many lines it skips; before it
is drawn, that number is cut down so that no line of the pane is left empty without need.
-/

namespace Chronicle.Explorer

open Chronicle.Screen

/-- How many lines a pane of the given height shows; one at least. -/
def visibleLines (height : Nat) : Nat := max (height - 2) 1

/-- The number of lines to skip of so many lines, when `offset` is wished for. -/
def clampOffset (lines height offset : Nat) : Nat := min offset (lines - visibleLines height)

/-- The largest number of lines that a paragraph can skip, and one more: beyond it the number
starts over. -/
def skipLimit : Nat := 0x10000

/-- Draw a pane that shows nothing but a remark. -/
def drawRemark (g : Grid) (a : Area) (title remark : String) (focused : Bool) : Grid :=
  let style := Style.ofFg Theme.comment
  ((g.paint a style).drawFrame a title (Theme.border focused)).drawParagraph a.inside
    [⟨[.raw remark], .plain⟩] style 0 .left

/-- Draw a pane of lines, skipping as many as `offset` says. -/
def drawLines (g : Grid) (a : Area) (title : String) (lines : List Line) (focused : Bool)
    (offset : Nat) : Grid :=
  (g.drawFrame a title (Theme.border focused)).drawParagraph a.inside.padded lines .plain
    (offset % skipLimit) .left

end Chronicle.Explorer
