import Chronicle.Structure.Data
/-!
The bag of a state's structures, kept by their ids.

Unlike a change of the grammar, taking a structure out of the bag takes effect at once.
-/

namespace Chronicle

/-- The content of a structure, stored under `id`, that has to be of the given kind. -/
def Structure.contentOf (s : Structure) (kind : StructureKind) (id : String) :
    Except EngineError kind.Content :=
  match s.body.as? kind with
  | some content => .ok content
  | none => .error (.structureKind id kind s.kind)

/-- The auxiliary structures of a state by their ids. -/
structure Bag where
  entries : SortedMap String Structure
deriving DecidableEq

namespace Bag

variable {α : Type}

def empty : Bag := ⟨.empty⟩

instance : Inhabited Bag := ⟨empty⟩

def get? (bag : Bag) (id : String) : Option Structure := bag.entries.get? id

def contains (bag : Bag) (id : String) : Bool := bag.entries.contains id

def size (bag : Bag) : Nat := bag.entries.size

def isEmpty (bag : Bag) : Bool := bag.entries.isEmpty

/-- The structures by priority, those of one priority by id. -/
def toList (bag : Bag) : List Structure :=
  bag.entries.values.mergeSort fun a b => a.priority ≤ b.priority

def require (bag : Bag) (id : String) : Except EngineError Structure :=
  match bag.get? id with
  | some s => .ok s
  | none => .error (.unknownStructure id)

/-- The content of the structure with the given id, which has to be of the given kind. -/
def content (bag : Bag) (kind : StructureKind) (id : String) : Except EngineError kind.Content := do
  (← bag.require id).contentOf kind id

/-- Store a structure under an id. -/
def put (bag : Bag) (id : String) (s : Structure) : Bag := ⟨bag.entries.insert id s⟩

/-- Fetch the content of a structure, creating the structure if there is none with this id.  The
name counts only for a creation. -/
def openContent (kind : StructureKind) (id name : String) : Edit Bag kind.Content :=
  .atomic fun bag =>
    match bag.get? id with
    | some s => (s.contentOf kind id).map (·, bag)
    | none => .ok (kind.emptyContent, bag.put id (.create kind id name))

/-- Edit the content of a structure that has to be there and of the given kind. -/
def editContent (kind : StructureKind) (id : String) (f : kind.Content → α × kind.Content) :
    Edit Bag α := .atomic fun bag => do
  let s ← bag.require id
  let (answer, content) := f (← s.contentOf kind id)
  return (answer, bag.put id { s with body := .of kind content })

/-- Edit a structure; answers `none` if there is none with this id. -/
def editEntry (bag : Bag) (id : String) (f : Structure → α × Structure) : Option α × Bag :=
  match bag.get? id with
  | some s =>
    let (answer, s) := f s
    (some answer, bag.put id s)
  | none => (none, bag)

/-- Take a structure out of the bag; answers what it was. -/
def remove (id : String) : Edit Bag Structure := .atomic fun bag => do
  let s ← bag.require id
  return (s, ⟨bag.entries.erase id⟩)

/-- The bag after its step was archived. -/
def settled (bag : Bag) : Bag := ⟨bag.entries.mapValues fun _ => Structure.settled⟩

def toData (bag : Bag) : SortedMap String StructureData :=
  bag.entries.mapValues fun _ => Structure.toData

/-- The bag that archived data describes, in a state with the grammar `g`. -/
def ofData (g : Grammar) (data : SortedMap String StructureData) : Except EngineError Bag := do
  let entries ← data.toList.foldlM (fun (entries : SortedMap String Structure) (id, s) => do
    return entries.insert id (← Structure.ofData g s)) .empty
  return ⟨entries⟩

end Bag

end Chronicle
