import Chronicle.Explorer.GrammarPane
import Chronicle.Explorer.StatusBar
import Chronicle.Explorer.StepsPane
import Chronicle.Explorer.StructuresPane
import Chronicle.Run.Basic
/-!
The explorer: a run to look at, a cursor on one of its steps, and the state recorded there.

Keys move the cursor, the focus or the lines of the focused pane; they never change the run.  The
state is opened anew whenever the cursor moved.
-/

namespace Chronicle

/-- The panes that can have the focus. -/
inductive Pane
  | steps
  | grammar
  | structures
deriving DecidableEq, Repr

namespace Pane

def next : Pane → Pane
  | steps => grammar
  | grammar => structures
  | structures => steps

def prev : Pane → Pane
  | steps => structures
  | grammar => steps
  | structures => grammar

end Pane

/-- A key that was pressed. -/
inductive Key
  | left
  | right
  | up
  | down
  | enter
  | backspace
  | tab
  | backTab
  | pageUp
  | pageDown
  | escape
  | char (c : Char)
deriving DecidableEq, Repr

/-- The state of the explorer. -/
structure Explorer (P : Type) where
  run : Run P
  cursor : Cursor
  entries : List Entry
  /-- The state that the active step recorded, if it could be opened. -/
  snapshot : Option Snapshot
  focus : Pane
  stepsOffset : Nat
  grammarOffset : Nat
  structuresOffset : Nat
  shouldQuit : Bool
  message : String

namespace Explorer

open Chronicle.Screen

variable {P : Type}

/-- Open the state of the active step, and show it from its first line. -/
def openActive (e : Explorer P) : Explorer P :=
  let e := match e.run.snapshotAt e.cursor.active with
    | .ok snapshot => { e with snapshot := some snapshot, message := "Ready!" }
    | .error err => { e with snapshot := none, message := "Cannot open step: " ++ err.message }
  { e with grammarOffset := 0, structuresOffset := 0 }

/-- The explorer on the first step of a run. -/
def ofRun (run : Run P) : Explorer P :=
  openActive {
    run := run
    cursor := .ofTimeline run.timeline
    entries := run.timeline.entries
    snapshot := none
    focus := .steps
    stepsOffset := 0
    grammarOffset := 0
    structuresOffset := 0
    shouldQuit := false
    message := "Ready!" }

/-- The place of the active step in the list of steps. -/
def position (e : Explorer P) : Nat := (StepsPane.position? e.entries e.cursor.active).getD 0

/-- The largest number of lines to skip. -/
def maxOffset : Nat := 0xFFFFFFFFFFFFFFFF

/-- Change the number of lines that the focused pane skips. -/
def scrollFocused (e : Explorer P) (change : Nat → Nat) : Explorer P :=
  match e.focus with
  | .steps => { e with stepsOffset := change e.stepsOffset }
  | .grammar => { e with grammarOffset := change e.grammarOffset }
  | .structures => { e with structuresOffset := change e.structuresOffset }

/-- The move of the cursor that a key asks for. -/
def moveFor? (t : Timeline (Job P)) : Key → Option (Cursor → Bool × Cursor)
  | .left => some (Cursor.goBackward t)
  | .right => some (Cursor.goForward t)
  | .up => some (Cursor.goPrev t)
  | .down => some (Cursor.goNext t)
  | .enter => some (Cursor.goEnd t)
  | .backspace => some (Cursor.goStart t)
  | _ => none

/-- The explorer after a key was pressed. -/
def press (e : Explorer P) (key : Key) : Explorer P :=
  match moveFor? e.run.timeline key with
  | some move =>
    let (moved, cursor) := move e.cursor
    let e := { e with cursor }
    if moved then e.openActive else e
  | none =>
    match key with
    | .char 'q' | .char 'Q' => { e with shouldQuit := true }
    | .tab => { e with focus := e.focus.next }
    | .backTab => { e with focus := e.focus.prev }
    | .pageUp => e.scrollFocused (· - 5)
    | .pageDown => e.scrollFocused fun offset => min (offset + 5) maxOffset
    | _ => e

/-- What the status bar tells. -/
def statusInfo (e : Explorer P) : StatusBar.Info where
  message := e.message
  crumbs := (e.cursor.breadcrumbs e.run.timeline).map fun (label, name) => (label.text, name)
  position := e.position
  total := e.entries.length

/-- Draw a frame of the given size.  The steps take the left part, the grammar and the structures
the right one, and the status bar the last row.  Drawing settles how far the panes are scrolled. -/
def draw (e : Explorer P) (width height : Nat) : Grid × Explorer P :=
  let (panes, status) := Area.splitLastRow ⟨0, 0, width, height⟩
  let (left, right) := panes.splitColumns 40
  let (upper, lower) := right.splitRows 60
  let grid := Grid.blank width height
  let (stepsOffset, grid) := StepsPane.draw grid left e.entries e.cursor.active
    (e.focus = .steps) e.stepsOffset
  let (grammarOffset, grid) := GrammarPane.draw grid upper (e.snapshot.map (·.grammar))
    (e.focus = .grammar) e.grammarOffset
  let (structuresOffset, grid) := StructuresPane.draw grid lower (e.snapshot.map (·.structures))
    (e.focus = .structures) e.structuresOffset
  (StatusBar.draw grid status e.statusInfo,
    { e with stepsOffset, grammarOffset, structuresOffset })

end Explorer

end Chronicle
