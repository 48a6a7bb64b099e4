import Chronicle.Timeline.Basic
/-!
Walking over a recorded run.

A cursor stands on a step; the moves answer whether they changed the step.  The root is the run as
a whole: no move leads to it, and the cursor stands on it only when there is nothing else.
-/

namespace Chronicle

/-- The name shown for a step without one. -/
def unnamedStep : String := "(unnamed step)"

/-- The name under which a step is shown. -/
def displayName (name : String) : String := if name.isEmpty then unnamedStep else name

/-- A line of the list of steps. -/
structure Entry where
  id : NodeId
  label : Label
  name : String
  /-- The number of levels below the root. -/
  depth : Nat
deriving DecidableEq, Repr

/-- All steps but the root in the order of execution. -/
def Timeline.entries {P : Type} (t : Timeline P) : List Entry :=
  (t.chronological.filter (· ≠ Timeline.root)).filterMap fun id =>
    (t.node? id).map fun n => ⟨id, n.label, displayName n.name, t.depth id⟩

/-- A step of a run to look at. -/
structure Cursor where
  active : NodeId
deriving DecidableEq, Repr

namespace Cursor

variable {P : Type}

def firstStep? (t : Timeline P) : Option NodeId := (t.node? Timeline.root).bind (·.firstChild)

/-- The cursor on the first step. -/
def ofTimeline (t : Timeline P) : Cursor := ⟨(firstStep? t).getD Timeline.root⟩

/-- Go to a step; answers whether there is one and it is another one. -/
def moveTo (c : Cursor) (target : Option NodeId) : Bool × Cursor :=
  match target with
  | some id => if id = c.active then (false, c) else (true, ⟨id⟩)
  | none => (false, c)

/-- Go to the step executed next. -/
def goForward (t : Timeline P) (c : Cursor) : Bool × Cursor := c.moveTo (t.after c.active)

/-- Go to the step executed before. -/
def goBackward (t : Timeline P) (c : Cursor) : Bool × Cursor :=
  c.moveTo ((t.before c.active).filter (· ≠ Timeline.root))

/-- Go to the next sibling, or forward where there is none. -/
def goNext (t : Timeline P) (c : Cursor) : Bool × Cursor :=
  match (t.node? c.active).bind (·.next) with
  | some next => c.moveTo (some next)
  | none => c.goForward t

/-- Go to the previous sibling, or backward where there is none. -/
def goPrev (t : Timeline P) (c : Cursor) : Bool × Cursor :=
  match (t.node? c.active).bind (·.prev) with
  | some prev => c.moveTo (some prev)
  | none => c.goBackward t

/-- Go to the first step below the root. -/
def goStart (t : Timeline P) (c : Cursor) : Bool × Cursor := c.moveTo (firstStep? t)

/-- Go to the last step right below the root. -/
def goEnd (t : Timeline P) (c : Cursor) : Bool × Cursor :=
  c.moveTo ((t.node? Timeline.root).bind (·.lastChild))

/-- Go to the step with the given label. -/
def jump (t : Timeline P) (label : String) (c : Cursor) : Bool × Cursor :=
  c.moveTo (t.findByLabel label)

/-- The labels and names on the way from below the root to the active step. -/
def breadcrumbs (t : Timeline P) (c : Cursor) : List (Label × String) :=
  let path := (c.active :: t.ancestors c.active).takeWhile (· ≠ Timeline.root)
  (path.filterMap fun id => (t.node? id).map fun n => (n.label, displayName n.name)).reverse

end Cursor

end Chronicle
