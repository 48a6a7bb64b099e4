import Chronicle.Structure.Kind
import Chronicle.Structure.Listing
import Chronicle.Structure.Table
/-!
Structures: one of the four kinds of content, with an id, a name, a tag and a priority.

`Content` gives the type of a kind's content, and `Body` is a content with its kind known at
run time; `Body.of` and `Body.as?` lead from one to the other.
-/

namespace Chronicle

namespace StructureKind

/-- What a structure of the given kind holds. -/
def Content : StructureKind → Type
  | symbolSet => SymbolSet
  | table => Table
  | symbolMapping => SymbolMapping
  | stack => SymbolStack

/-- The content of a structure that was just created. -/
def emptyContent : (kind : StructureKind) → kind.Content
  | symbolSet => SymbolSet.empty
  | table => Table.empty
  | symbolMapping => SymbolMapping.empty
  | stack => SymbolStack.empty

end StructureKind

/-- What a structure holds. -/
inductive Body
  | symbolSet (set : SymbolSet)
  | table (table : Table)
  | symbolMapping (mapping : SymbolMapping)
  | stack (stack : SymbolStack)
deriving DecidableEq

namespace Body

def kind : Body → StructureKind
  | symbolSet _ => .symbolSet
  | table _ => .table
  | symbolMapping _ => .symbolMapping
  | stack _ => .stack

/-- The body with the given content. -/
def of : (kind : StructureKind) → kind.Content → Body
  | .symbolSet, set => symbolSet set
  | .table, t => table t
  | .symbolMapping, mapping => symbolMapping mapping
  | .stack, s => stack s

/-- The content of a body, if it is of the given kind. -/
def as? : (kind : StructureKind) → Body → Option kind.Content
  | .symbolSet, symbolSet set => some set
  | .table, table t => some t
  | .symbolMapping, symbolMapping mapping => some mapping
  | .stack, stack s => some s
  | _, _ => none

/-- The body after its step was archived. -/
def settled : Body → Body
  | symbolSet set => symbolSet set.settled
  | table t => table t.settled
  | symbolMapping mapping => symbolMapping mapping
  | stack s => stack s

@[simp] theorem as?_of (kind : StructureKind) (content : kind.Content) :
    (of kind content).as? kind = some content := by
  cases kind <;> rfl

@[simp] theorem kind_of (kind : StructureKind) (content : kind.Content) :
    (of kind content).kind = kind := by
  cases kind <;> rfl

theorem as?_eq_none_iff {kind : StructureKind} {body : Body} :
    body.as? kind = none ↔ body.kind ≠ kind := by
  cases kind <;> cases body <;> simp [as?, Body.kind]

end Body

/-- An auxiliary structure of a state. -/
structure Structure where
  id : String
  name : String
  tag : Tag
  /-- Structures with a lower priority are shown first. -/
  priority : Int32
  body : Body
deriving DecidableEq

namespace Structure

def kind (s : Structure) : StructureKind := s.body.kind

/-- A structure that was just created. -/
def create (kind : StructureKind) (id name : String) : Structure :=
  ⟨id, name, .none, 1, .of kind kind.emptyContent⟩

/-- Offer a tag to the structure; answers the tag it carries then. -/
def mark (s : Structure) (tag : Tag) : Tag × Structure :=
  let tag := s.tag.resolve tag
  (tag, { s with tag })

/-- The structure after its step was archived. -/
def settled (s : Structure) : Structure :=
  { s with tag := s.tag.decay, body := s.body.settled }

end Structure

end Chronicle
