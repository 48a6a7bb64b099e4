import Chronicle.Grammar.Data
import Chronicle.Structure.Basic
/-!
Structures as plain data.

Archived sets list one membership, the proposed one, so a set comes back with both memberships
equal to it.  The members of a symbol set have to be symbols of the grammar or the text of the
empty word; the members of table cells may be any texts.
-/

namespace Chronicle

/-- An archived table cell. -/
structure CellData where
  tag : Tag
  members : List String
deriving DecidableEq

/-- The archived content of a structure. -/
inductive BodyData
  | symbolSet (members : List String) (tag : Tag)
  | table (rows columns : SortedMap String String)
      (cells : SortedMap String (SortedMap String CellData))
  | symbolMapping (pairs : List (String × String))
  | stack (items : List String)
deriving DecidableEq

/-- An archived structure. -/
structure StructureData where
  id : String
  name : String
  tag : Tag
  priority : Int32
  body : BodyData
deriving DecidableEq

namespace SymbolSet

def toCellData (s : SymbolSet) : CellData := ⟨s.tag, s.pending⟩

def ofCellData (data : CellData) : SymbolSet := ofList data.members data.tag

end SymbolSet

namespace Table

/-- The table with the given rows and columns; a cell that the data lacks is empty, and cells
outside the grid are dropped. -/
def ofData (rows columns : SortedMap String String)
    (cells : SortedMap String (SortedMap String CellData)) : Table where
  rows := rows
  columns := columns
  cells := rows.mapValues fun row _ => columns.mapValues fun column _ =>
    (((cells.get? row).bind (·.get? column)).map SymbolSet.ofCellData).getD .empty

end Table

namespace Body

def toData : Body → BodyData
  | symbolSet set => .symbolSet set.pending set.tag
  | table t =>
    .table t.rows t.columns
      (t.cells.mapValues fun _ row => row.mapValues fun _ => SymbolSet.toCellData)
  | symbolMapping mapping => .symbolMapping mapping.pairs
  | stack s => .stack s.items

/-- The body that archived data describes; `id` is the id of its structure. -/
def ofData (g : Grammar) (id : String) : BodyData → Except EngineError Body
  | .symbolSet members tag =>
    match members.find? fun item => item != epsilonText && !g.containsSymbol item with
    | some unknown => .error (.invalidData (.unknownMember id unknown))
    | none => .ok (symbolSet (.ofList members tag))
  | .table rows columns cells => .ok (table (.ofData rows columns cells))
  | .symbolMapping pairs => .ok (symbolMapping ⟨pairs⟩)
  | .stack items => .ok (stack ⟨items⟩)

end Body

namespace Structure

def toData (s : Structure) : StructureData := ⟨s.id, s.name, s.tag, s.priority, s.body.toData⟩

def ofData (g : Grammar) (data : StructureData) : Except EngineError Structure := do
  return ⟨data.id, data.name, data.tag, data.priority, ← Body.ofData g data.id data.body⟩

end Structure

end Chronicle
