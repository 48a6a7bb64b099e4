import Chronicle.SortedMap.Lemmas
import Chronicle.Structure.Data
/-!
Tables whose cells fill the grid.

A table keeps its rows, its columns and its cells apart, and archived data is read row by row and
column by column, so a cell outside of the grid would be lost and a missing one made up.  Neither
is ever the case: there is a cell exactly for every row and every column (`Table.Full`), whatever
was done to the table.  Such a table comes back from its archived data with the proposed members of
its cells for the effective ones (`Table.committed`).
-/

namespace Chronicle

/-! ### Sets -/

namespace SymbolSet

/-- The set in which the proposed members are the effective ones. -/
def committed (s : SymbolSet) : SymbolSet := { s with effective := s.proposed }

/-- An archived set comes back with the proposed members for both. -/
theorem ofList_pending (s : SymbolSet) : ofList s.pending s.tag = s.committed := by
  rw [ofList, pending, SortedSet.ofList_toList]
  rfl

theorem ofCellData_toCellData (s : SymbolSet) : ofCellData s.toCellData = s.committed :=
  s.ofList_pending

end SymbolSet

namespace Table

variable {t : Table} {row column id name : String}

/-! ### Operations -/

/-- What a table can be asked for; a cell can be changed in any way. -/
inductive Operation
  | addRow (id name : String)
  | removeRow (id : String)
  | addColumn (id name : String)
  | removeColumn (id : String)
  | editCell (row column : String) (f : SymbolSet → SymbolSet)

/-- The table after an operation; a cell that is not there is not changed. -/
def Operation.perform : Operation → Table → Table
  | addRow id name, t => t.addRow id name
  | removeRow id, t => t.removeRow id
  | addColumn id name, t => t.addColumn id name
  | removeColumn id, t => t.removeColumn id
  | editCell row column f, t => ((t.editCell row column fun cell => ((), f cell)).map (·.2)).getD t

/-- The table with every cell changed by `f`. -/
def mapCells (t : Table) (f : SymbolSet → SymbolSet) : Table :=
  { t with cells := t.cells.mapValues fun _ cells => cells.mapValues fun _ => f }

/-- The table with the proposed members of its cells for the effective ones. -/
def committed (t : Table) : Table := t.mapCells SymbolSet.committed

/-! ### Full grids -/

/-- There is a cell for every row and every column, and no other cell. -/
structure Full (t : Table) : Prop where
  rows : ∀ row, t.cells.contains row = t.rows.contains row
  columns : ∀ row cells, t.cells.get? row = some cells →
    ∀ column, cells.contains column = t.columns.contains column

theorem full_empty : Full empty := by
  refine ⟨fun _ => rfl, fun row cells hcells => ?_⟩
  simp [empty] at hcells

namespace Full

theorem mapCells (h : t.Full) (f : SymbolSet → SymbolSet) : (t.mapCells f).Full := by
  refine ⟨fun row => ?_, fun row cells hcells column => ?_⟩
  · exact (SortedMap.contains_mapValues _ _ _).trans (h.rows row)
  · rw [Table.mapCells, SortedMap.get?_mapValues] at hcells
    obtain ⟨before, hbefore, rfl⟩ := Option.map_eq_some_iff.mp hcells
    rw [SortedMap.contains_mapValues]
    exact h.columns row before hbefore column

theorem addRow (h : t.Full) (id name : String) : (t.addRow id name).Full := by
  unfold Table.addRow
  split
  · exact h
  · refine ⟨fun row => ?_, fun row cells hcells column => ?_⟩
    · simp only [SortedMap.contains_insert, h.rows row]
    · rw [SortedMap.get?_insert] at hcells
      split at hcells
      · rw [← Option.some.inj hcells, SortedMap.contains_mapValues]
      · exact h.columns row cells hcells column

theorem removeRow (h : t.Full) (id : String) : (t.removeRow id).Full := by
  refine ⟨fun row => ?_, fun row cells hcells column => ?_⟩
  · simp only [Table.removeRow, SortedMap.contains_erase, h.rows row]
  · rw [Table.removeRow, SortedMap.get?_erase] at hcells
    split at hcells
    · cases hcells
    · exact h.columns row cells hcells column

theorem addColumn (h : t.Full) (id name : String) : (t.addColumn id name).Full := by
  unfold Table.addColumn
  split
  · exact h
  · refine ⟨fun row => ?_, fun row cells hcells column => ?_⟩
    · exact (SortedMap.contains_mapValues _ _ _).trans (h.rows row)
    · rw [SortedMap.get?_mapValues] at hcells
      obtain ⟨before, hbefore, rfl⟩ := Option.map_eq_some_iff.mp hcells
      simp only [SortedMap.contains_insert, h.columns row before hbefore column]

theorem removeColumn (h : t.Full) (id : String) : (t.removeColumn id).Full := by
  refine ⟨fun row => ?_, fun row cells hcells column => ?_⟩
  · exact (SortedMap.contains_mapValues _ _ _).trans (h.rows row)
  · rw [Table.removeColumn, SortedMap.get?_mapValues] at hcells
    obtain ⟨before, hbefore, rfl⟩ := Option.map_eq_some_iff.mp hcells
    simp only [Table.removeColumn, SortedMap.contains_erase, h.columns row before hbefore column]

/-- Only a cell that is there can be exchanged. -/
theorem exchange (h : t.Full) {cell : SymbolSet} (hcell : t.cell? row column = some cell)
    (cell' : SymbolSet) :
    Full { t with cells := t.cells.modify row (·.insert column cell') } := by
  obtain ⟨before, hbefore, hcolumn⟩ := Option.bind_eq_some_iff.mp hcell
  have hcontains : t.columns.contains column = true := by
    rw [← h.columns row before hbefore, SortedMap.contains, hcolumn]
    rfl
  refine ⟨fun r => ?_, fun r cells hcells c => ?_⟩
  · rw [SortedMap.modify, SortedMap.contains_mapValues]
    exact h.rows r
  · rw [SortedMap.get?_modify] at hcells
    split at hcells
    · next hr =>
      subst hr
      rw [hbefore, Option.map_some] at hcells
      rw [← Option.some.inj hcells, SortedMap.contains_insert, h.columns r before hbefore]
      by_cases hc : c = column
      · simp [hc, hcontains]
      · simp [hc]
    · exact h.columns r cells hcells c

theorem perform (h : t.Full) (op : Operation) : (op.perform t).Full := by
  cases op with
  | addRow id name => exact h.addRow id name
  | removeRow id => exact h.removeRow id
  | addColumn id name => exact h.addColumn id name
  | removeColumn id => exact h.removeColumn id
  | editCell row column f =>
      rw [Operation.perform, editCell]
      cases hcell : t.cell? row column with
      | none => exact h
      | some cell => exact h.exchange hcell (f cell)

end Full

/-! ### Archived tables -/

theorem full_ofData (rows columns : SortedMap String String)
    (cells : SortedMap String (SortedMap String CellData)) : (ofData rows columns cells).Full := by
  refine ⟨fun row => SortedMap.contains_mapValues _ _ _, fun row restored hrestored column => ?_⟩
  rw [ofData, SortedMap.get?_mapValues] at hrestored
  obtain ⟨name, -, rfl⟩ := Option.map_eq_some_iff.mp hrestored
  exact SortedMap.contains_mapValues _ _ _

/-- **A full table comes back from its archived data**, its proposals made true. -/
theorem Full.ofData_eq (h : t.Full) : ofData t.rows t.columns
    (t.cells.mapValues fun _ cells => cells.mapValues fun _ => SymbolSet.toCellData)
      = t.committed := by
  rw [ofData, committed, Table.mapCells, Table.mk.injEq]
  refine ⟨rfl, rfl, SortedMap.mapValues_eq_of_contains h.rows fun row _ cells hcells => ?_⟩
  refine SortedMap.mapValues_eq_of_contains (h.columns row cells hcells) ?_
  intro column _ cell hcell
  rw [SortedMap.get?_mapValues, hcells, Option.map_some, Option.bind_some, SortedMap.get?_mapValues,
    hcell]
  exact cell.ofCellData_toCellData

end Table

end Chronicle
