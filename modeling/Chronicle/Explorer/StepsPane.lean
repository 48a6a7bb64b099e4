import Chronicle.Explorer.Pane
import Chronicle.Timeline.Cursor
/-!
The pane that lists the steps of a run.

Every step is a row, indented by its depth; the active one is marked.  Before it is drawn the pane
moves as little as it takes to show the active step.
-/

namespace Chronicle.Explorer.StepsPane

open Chronicle.Screen

def title : String := " Steps "

/-- The place of a step in the list. -/
def position? (entries : List Entry) (active : NodeId) : Option Nat :=
  entries.findIdx? (·.id = active)

/-- The least move of the window that shows the row at `position`. -/
def reveal (position height offset : Nat) : Nat :=
  if position < offset then position
  else if offset + visibleLines height ≤ position then position + 1 - visibleLines height
  else offset

/-- The number of rows to skip when `offset` is wished for. -/
def scrollOffset (entries : List Entry) (active : NodeId) (height offset : Nat) : Nat :=
  let offset := match position? entries active with
    | some position => reveal position height offset
    | none => offset
  clampOffset entries.length height offset

/-- The entries in the window. -/
def shownEntries (entries : List Entry) (height offset : Nat) : List Entry :=
  (entries.drop offset).take (visibleLines height)

/-- The row of an entry. -/
def row (active : NodeId) (e : Entry) : Line :=
  let isActive := e.id = active
  { spans :=
      [.raw ((if isActive then "▶ " else "  ") ++ String.join (List.replicate (e.depth - 1) "  ")),
        ⟨e.label.text ++ " ", .ofFg Theme.label⟩,
        ⟨e.name, .ofFg Theme.text⟩]
    style := if isActive then (Style.plain.withBg Theme.ground).withBold else .plain }

/-- Draw the pane; answers the number of rows it skips. -/
def draw (grid : Grid) (a : Area) (entries : List Entry) (active : NodeId) (focused : Bool)
    (offset : Nat) : Nat × Grid :=
  let offset := scrollOffset entries active a.height offset
  let rows := (shownEntries entries a.height offset).map (row active)
  (offset, (grid.drawFrame a title (Theme.border focused)).drawList a.inside.padded rows)

end Chronicle.Explorer.StepsPane
