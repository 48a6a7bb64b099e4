import Chronicle.Structure.SymbolSet
/-!
Tables of symbol sets.

Rows and columns have an id and a name.  There is a cell for every row and every column: a new
row or column comes with empty cells, a removed one takes its cells along.
-/

namespace Chronicle

/-- A grid of symbol sets. -/
structure Table where
  /-- The names of the rows by their ids. -/
  rows : SortedMap String String
  /-- The names of the columns by their ids. -/
  columns : SortedMap String String
  /-- The cells by row id and column id. -/
  cells : SortedMap String (SortedMap String SymbolSet)
deriving DecidableEq, Inhabited

namespace Table

def empty : Table := ⟨.empty, .empty, .empty⟩

/-- Add a row of empty cells, unless there is a row with this id. -/
def addRow (t : Table) (id name : String) : Table :=
  if t.rows.contains id then t
  else
    { t with
      rows := t.rows.insert id name
      cells := t.cells.insert id (t.columns.mapValues fun _ _ => .empty) }

def removeRow (t : Table) (id : String) : Table :=
  { t with rows := t.rows.erase id, cells := t.cells.erase id }

/-- Add a column of empty cells, unless there is a column with this id. -/
def addColumn (t : Table) (id name : String) : Table :=
  if t.columns.contains id then t
  else
    { t with
      columns := t.columns.insert id name
      cells := t.cells.mapValues fun _ row => row.insert id .empty }

def removeColumn (t : Table) (id : String) : Table :=
  { t with
    columns := t.columns.erase id
    cells := t.cells.mapValues fun _ row => row.erase id }

def cell? (t : Table) (row column : String) : Option SymbolSet :=
  (t.cells.get? row).bind (·.get? column)

/-- Edit a cell; `none` if there is no such cell. -/
def editCell {α : Type} (t : Table) (row column : String) (f : SymbolSet → α × SymbolSet) :
    Option (α × Table) :=
  (t.cell? row column).map fun cell =>
    let (answer, cell) := f cell
    (answer, { t with cells := t.cells.modify row (·.insert column cell) })

/-- The table after its step was archived. -/
def settled (t : Table) : Table :=
  { t with cells := t.cells.mapValues fun _ row => row.mapValues fun _ => SymbolSet.settled }

end Table

end Chronicle
