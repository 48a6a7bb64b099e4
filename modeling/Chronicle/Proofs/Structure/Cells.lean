import Chronicle.Proofs.Structure.Grid
/-!
The cells of tables under their operations.

An addition is described by what it does to the look-up of a cell.  For rows that can be told of any
table; a column goes through the rows that have cells, so it can only be told of a table whose rows
and cells agree.  Every table that can be come by is such a one (`Table.Attained.full`), and for
those the laws of a grid hold (`Table.Aligned`): what is there is not added again, what is not there
is not removed, an addition leaves all cells alone, and what is new is empty, even if it was there
before.
-/

namespace Chronicle

namespace Table

variable {t : Table}

/-! ### Tables that can be come by -/

/-- The tables that are begun empty or read from data, and changed by operations. -/
inductive Attained : Table → Prop
  | empty : Attained .empty
  | ofData (rows columns : SortedMap String String)
      (cells : SortedMap String (SortedMap String CellData)) : Attained (.ofData rows columns cells)
  | perform {t : Table} (h : Attained t) (op : Operation) : Attained (op.perform t)
  | settle {t : Table} (h : Attained t) : Attained t.settled

theorem Attained.full (h : t.Attained) : t.Full := by
  induction h with
  | empty => exact full_empty
  | ofData rows columns cells => exact full_ofData rows columns cells
  | perform _ op ih => exact ih.perform op
  | settle _ ih => exact ih.mapCells SymbolSet.settled

theorem Attained.performAll (h : t.Attained) (ops : List Operation) :
    (ops.foldl (fun t op => op.perform t) t).Attained := by
  induction ops generalizing t with
  | nil => exact h
  | cons op ops ih => exact ih (h.perform op)

/-! ### Look-ups -/

/-- The cell of a row or a column that has just been added: empty if there is what it crosses. -/
theorem map_const_empty (lines : SortedMap String String) (id : String) :
    ((lines.get? id).map fun _ => SymbolSet.empty) =
      if lines.contains id then some .empty else none := by
  rw [SortedMap.contains]
  cases lines.get? id <;> rfl

theorem cell?_addRow (t : Table) (id name row column : String) :
    (t.addRow id name).cell? row column =
      if row = id ∧ t.rows.contains id = false then
        if t.columns.contains column then some .empty else none
      else t.cell? row column := by
  unfold addRow
  cases hid : t.rows.contains id with
  | true => simp
  | false =>
      simp only [cell?, Bool.false_eq_true, if_false, SortedMap.get?_insert]
      by_cases hrow : row = id
      · simp [hrow, SortedMap.get?_mapValues, map_const_empty]
      · simp [hrow]

namespace Full

/-- There is a cell exactly where a row and a column cross. -/
theorem isSome_cell? (h : t.Full) (row column : String) :
    (t.cell? row column).isSome = (t.rows.contains row && t.columns.contains column) := by
  rw [cell?, ← h.rows row, SortedMap.contains]
  cases hcells : t.cells.get? row with
  | none => rfl
  | some cells =>
      have hcolumn := h.columns row cells hcells column
      rw [Option.bind_some, Option.isSome_some, Bool.true_and, ← hcolumn, SortedMap.contains]

/-- The cells of a new column are put into the rows that have cells, and that is all rows. -/
theorem cell?_addColumn (h : t.Full) (id name row column : String) :
    (t.addColumn id name).cell? row column =
      if column = id ∧ t.columns.contains id = false then
        if t.rows.contains row then some .empty else none
      else t.cell? row column := by
  unfold Table.addColumn
  cases hid : t.columns.contains id with
  | true => simp
  | false =>
      rw [← h.rows row, SortedMap.contains]
      simp only [cell?, Bool.false_eq_true, if_false, SortedMap.get?_mapValues]
      cases t.cells.get? row with
      | none => simp
      | some cells => simp [SortedMap.get?_insert]

/-! ### Operations that change nothing -/

theorem removeRow_eq_self (h : t.Full) {id : String} (hid : t.rows.contains id = false) :
    t.removeRow id = t := by
  have hcells : t.cells.contains id = false := (h.rows id).trans hid
  rw [Table.removeRow, SortedMap.erase_of_contains_eq_false hid,
    SortedMap.erase_of_contains_eq_false hcells]

theorem removeColumn_eq_self (h : t.Full) {id : String} (hid : t.columns.contains id = false) :
    t.removeColumn id = t := by
  have hcells : (t.cells.mapValues fun _ cells => cells.erase id) = t.cells := by
    refine SortedMap.mapValues_of_forall fun row cells hrow => ?_
    exact SortedMap.erase_of_contains_eq_false ((h.columns row cells hrow id).trans hid)
  rw [Table.removeColumn, SortedMap.erase_of_contains_eq_false hid, hcells]

end Full

/-! ### The laws of a grid -/

/-- Rows, columns and cells go together. -/
structure Aligned (t : Table) : Prop where
  /-- There is a cell for each row and each column, and no other cell. -/
  grid : ∀ row column, (t.cell? row column).isSome = true ↔
    t.rows.contains row = true ∧ t.columns.contains column = true
  /-- What is there is not added again, and keeps its name. -/
  addRow_again : ∀ id name, t.rows.contains id = true → t.addRow id name = t
  addColumn_again : ∀ id name, t.columns.contains id = true → t.addColumn id name = t
  /-- What is not there cannot be removed. -/
  removeRow_absent : ∀ id, t.rows.contains id = false → t.removeRow id = t
  removeColumn_absent : ∀ id, t.columns.contains id = false → t.removeColumn id = t
  /-- No addition touches a cell. -/
  addRow_keeps : ∀ id name row column cell, t.cell? row column = some cell →
    (t.addRow id name).cell? row column = some cell
  addColumn_keeps : ∀ id name row column cell, t.cell? row column = some cell →
    (t.addColumn id name).cell? row column = some cell
  /-- A row that is not there now, whether or not it was before, comes with empty cells. -/
  addRow_fresh : ∀ id name column, t.rows.contains id = false →
    (t.addRow id name).cell? id column =
      if t.columns.contains column then some .empty else none
  addColumn_fresh : ∀ id name row, t.columns.contains id = false →
    (t.addColumn id name).cell? row id = if t.rows.contains row then some .empty else none
  /-- A row that is removed and added again has lost what its cells held. -/
  readdRow : ∀ id name column, ((t.removeRow id).addRow id name).cell? id column =
    if t.columns.contains column then some .empty else none
  readdColumn : ∀ id name row, ((t.removeColumn id).addColumn id name).cell? row id =
    if t.rows.contains row then some .empty else none

theorem Full.addRow_keeps (h : t.Full) (id name : String) {row column : String} {cell : SymbolSet}
    (hcell : t.cell? row column = some cell) :
    (t.addRow id name).cell? row column = some cell := by
  have hgrid := h.isSome_cell? row column
  rw [hcell, Option.isSome_some, eq_comm, Bool.and_eq_true] at hgrid
  rw [cell?_addRow, if_neg, hcell]
  rintro ⟨rfl, hid⟩
  exact Bool.false_ne_true (hid.symm.trans hgrid.1)

theorem Full.addColumn_keeps (h : t.Full) (id name : String) {row column : String}
    {cell : SymbolSet} (hcell : t.cell? row column = some cell) :
    (t.addColumn id name).cell? row column = some cell := by
  have hgrid := h.isSome_cell? row column
  rw [hcell, Option.isSome_some, eq_comm, Bool.and_eq_true] at hgrid
  rw [h.cell?_addColumn, if_neg, hcell]
  rintro ⟨rfl, hid⟩
  exact Bool.false_ne_true (hid.symm.trans hgrid.2)

/-- **The laws of a grid hold for every table that can be come by.** -/
theorem Attained.aligned (hattained : t.Attained) : t.Aligned := by
  have h := hattained.full
  have hrow (id : String) : (t.removeRow id).rows.contains id = false := by
    simp [removeRow, SortedMap.contains_erase]
  have hcolumn (id : String) : (t.removeColumn id).columns.contains id = false := by
    simp [removeColumn, SortedMap.contains_erase]
  exact {
    grid := fun row column => by rw [h.isSome_cell?, Bool.and_eq_true]
    addRow_again := fun id name hid => if_pos hid
    addColumn_again := fun id name hid => if_pos hid
    removeRow_absent := fun id hid => h.removeRow_eq_self hid
    removeColumn_absent := fun id hid => h.removeColumn_eq_self hid
    addRow_keeps := fun id name row column cell hcell => h.addRow_keeps id name hcell
    addColumn_keeps := fun id name row column cell hcell => h.addColumn_keeps id name hcell
    addRow_fresh := fun id name column hid => by rw [cell?_addRow, if_pos ⟨rfl, hid⟩]
    addColumn_fresh := fun id name row hid => by rw [h.cell?_addColumn, if_pos ⟨rfl, hid⟩]
    readdRow := fun id name column => by
      rw [cell?_addRow, if_pos ⟨rfl, hrow id⟩]
      rfl
    readdColumn := fun id name row => by
      rw [(h.removeColumn id).cell?_addColumn, if_pos ⟨rfl, hcolumn id⟩]
      rfl }

/-- A table that is read from data with a missing cell and a stray one, given another column, and
changed in one cell. -/
def sampleGrid : Table :=
  settled <| [Operation.addColumn "b" "B", .removeRow "A",
    .editCell "S" "a" fun cell => (cell.add "x").2].foldl (fun t op => op.perform t) <|
      ofData (.ofList [("A", "A"), ("S", "S")]) (.ofList [("a", "a")])
        (.ofList [("S", .ofList [("a", ⟨.none, ["y"]⟩), ("c", ⟨.none, ["z"]⟩)])])

theorem aligned_sampleGrid :
    sampleGrid.Attained ∧
      sampleGrid.cell? "S" "a" = some (.ofList ["x", "y"] .none) ∧
      (sampleGrid.cell? "S" "b").isSome = true ∧ (sampleGrid.cell? "S" "c").isSome ≠ true ∧
      sampleGrid.addRow "S" "T" = sampleGrid ∧ sampleGrid.removeRow "A" = sampleGrid ∧
      (sampleGrid.addColumn "c" "C").cell? "S" "a" = some (.ofList ["x", "y"] .none) ∧
      (sampleGrid.addRow "A" "A").cell? "A" "b" = some .empty ∧
      ((sampleGrid.removeColumn "a").addColumn "a" "a").cell? "S" "a" = some .empty := by
  have hattained : sampleGrid.Attained := .settle (.performAll (.ofData _ _ _) _)
  have h : sampleGrid.Aligned := hattained.aligned
  have hcell : sampleGrid.cell? "S" "a" = some (.ofList ["x", "y"] .none) := by decide
  exact ⟨hattained, hcell, (h.grid "S" "b").mpr (by decide), mt (h.grid "S" "c").mp (by decide),
    h.addRow_again "S" "T" (by decide), h.removeRow_absent "A" (by decide),
    h.addColumn_keeps "c" "C" "S" "a" _ hcell,
    (h.addRow_fresh "A" "A" "b" (by decide)).trans (if_pos (by decide)),
    (h.readdColumn "a" "a" "S").trans (if_pos (by decide))⟩

end Table

end Chronicle
