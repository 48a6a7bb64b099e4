import Chronicle.Snapshot
import Chronicle.Timeline.Label
/-!
The timeline: the tree of steps, threaded in the order of their execution.

Nodes live in an array and refer to each other by their places in it.  The links make a tree
with ordered siblings; the chronological order is its pre-order, found by `after` and `before`
without a stored list.  Nodes are only ever appended as a last child (`adopt`) or put right
behind a sibling (`duplicate`); none is taken away.

A new node is stored behind the nodes that its links go up to, so chains of links are never
longer than the array, which bounds every walk below.
-/

namespace Chronicle

/-- How far the step of a node has come. -/
inductive NodeStatus
  | scheduled
  | running
  | archived
deriving DecidableEq, Repr

/-- A step of a run; `P` names its programs. -/
structure Node (P : Type) where
  name : String
  /-- The position, known once the step is about to run. -/
  label : Label
  parent : Option NodeId
  firstChild : Option NodeId
  lastChild : Option NodeId
  prev : Option NodeId
  next : Option NodeId
  program : P
  /-- What to run on the state that the step hands over. -/
  hook : Option P
  /-- Has the step asked for another one like itself? -/
  repeats : Bool
  status : NodeStatus
  state : SnapshotState
deriving DecidableEq

namespace Node

variable {P : Type}

/-- A node without links whose step has not run. -/
def scheduled (program : P) : Node P where
  name := ""
  label := .root
  parent := none
  firstChild := none
  lastChild := none
  prev := none
  next := none
  program := program
  hook := none
  repeats := false
  status := .scheduled
  state := .pending

end Node

/-- The tree of the steps of a run, the root first. -/
structure Timeline (P : Type) where
  nodes : Array (Node P)
deriving DecidableEq

namespace Timeline

variable {P : Type}

/-- The timeline that consists of its root. -/
def ofRoot (program : P) (initial : SnapshotState) : Timeline P :=
  ⟨#[{ Node.scheduled program with state := initial }]⟩

def root : NodeId := ⟨0⟩

def size (t : Timeline P) : Nat := t.nodes.size

def node? (t : Timeline P) (id : NodeId) : Option (Node P) := t.nodes[id.index]?

def node (t : Timeline P) (id : NodeId) : Except EngineError (Node P) :=
  match t.node? id with
  | some n => .ok n
  | none => .error (.unknownNode id)

/-- Change a node, if there is one with this id. -/
def modify (t : Timeline P) (id : NodeId) (f : Node P → Node P) : Timeline P :=
  ⟨t.nodes.modify id.index f⟩

/-! ### Growing -/

/-- Put a node behind the children of `parent`. -/
def linkLastChild (t : Timeline P) (parent child : NodeId) : Timeline P :=
  let last := (t.node? parent).bind (·.lastChild)
  let t := match last with
    | some last =>
      (t.modify last ({ · with next := some child })).modify child ({ · with prev := some last })
    | none => t.modify parent ({ · with firstChild := some child })
  (t.modify parent ({ · with lastChild := some child })).modify child
    ({ · with parent := some parent })

/-- Add a step as the last child of `parent`; answers its id. -/
def adopt (t : Timeline P) (parent : NodeId) (program : P) :
    Except EngineError (NodeId × Timeline P) := do
  let _ ← t.node parent
  let child : NodeId := ⟨t.size⟩
  return (child, linkLastChild ⟨t.nodes.push (.scheduled program)⟩ parent child)

/-- Add a step with the program of `id` right behind it; answers its id. -/
def duplicate (t : Timeline P) (id : NodeId) : Except EngineError (NodeId × Timeline P) := do
  let source ← t.node id
  let some parent := source.parent | throw .duplicateRoot
  let copy : NodeId := ⟨t.size⟩
  let grown : Timeline P := ⟨t.nodes.push (.scheduled source.program)⟩
  match source.next with
  | some next =>
    let grown := grown.modify copy
      ({ · with parent := some parent, prev := some id, next := some next })
    let grown := grown.modify id ({ · with next := some copy })
    return (copy, grown.modify next ({ · with prev := some copy }))
  | none => return (copy, grown.linkLastChild parent copy)

/-! ### The chronological order -/

/-- The next sibling of a node or else of its nearest ancestor that has one, looking at no more
than `bound` nodes. -/
def nextUp (t : Timeline P) : (bound : Nat) → NodeId → Option NodeId
  | 0, _ => none
  | bound + 1, id => (t.node? id).bind fun n =>
    match n.next with
    | some next => some next
    | none => n.parent.bind (t.nextUp bound)

/-- The node executed right after `id`. -/
def after (t : Timeline P) (id : NodeId) : Option NodeId :=
  (t.node? id).bind fun n =>
    match n.firstChild with
    | some child => some child
    | none => t.nextUp t.size id

/-- The end of the chain of last children, going down no more than `bound` levels. -/
def deepestLast (t : Timeline P) : (bound : Nat) → NodeId → NodeId
  | 0, id => id
  | bound + 1, id =>
    match (t.node? id).bind (·.lastChild) with
    | some last => t.deepestLast bound last
    | none => id

/-- The node executed right before `id`. -/
def before (t : Timeline P) (id : NodeId) : Option NodeId :=
  (t.node? id).bind fun n =>
    match n.prev with
    | some prev => some (t.deepestLast t.size prev)
    | none => n.parent

/-- Follow a link from node to node, `bound` nodes at most. -/
def follow (link : NodeId → Option NodeId) : (bound : Nat) → Option NodeId → List NodeId
  | 0, _ => []
  | _, none => []
  | bound + 1, some id => id :: follow link bound (link id)

/-- All nodes in the order of execution. -/
def chronological (t : Timeline P) : List NodeId := follow t.after t.size (some root)

/-! ### The tree -/

def parent? (t : Timeline P) (id : NodeId) : Option NodeId := (t.node? id).bind (·.parent)

def children (t : Timeline P) (id : NodeId) : List NodeId :=
  follow (fun child => (t.node? child).bind (·.next)) t.size ((t.node? id).bind (·.firstChild))

/-- The ancestors of a node, its parent first. -/
def ancestors (t : Timeline P) (id : NodeId) : List NodeId :=
  follow t.parent? t.size (t.parent? id)

/-- The number of levels above a node. -/
def depth (t : Timeline P) (id : NodeId) : Nat := (t.ancestors id).length

/-! ### Labels -/

/-- The label that the links of a node give it: right behind its previous sibling, or the first
below its parent. -/
def positionOf (t : Timeline P) (n : Node P) : Label :=
  let labelOf (id : NodeId) : Label := ((t.node? id).map (·.label)).getD .root
  match n.prev, n.parent with
  | some prev, _ => (labelOf prev).following
  | none, some parent => (labelOf parent).below
  | none, none => .root

/-- Give a node the label of its position; answers the label. -/
def assignLabel (t : Timeline P) (id : NodeId) : Except EngineError (Label × Timeline P) := do
  let label := t.positionOf (← t.node id)
  return (label, t.modify id ({ · with label }))

/-- The node whose label has the given text; the root has no label to be found by. -/
def findByLabel (t : Timeline P) (text : String) : Option NodeId :=
  (t.nodes.findIdx? fun n => n.label ≠ .root ∧ n.label.text = text).map NodeId.mk

end Timeline

end Chronicle
