import Chronicle.Proofs.Edit
import Chronicle.Proofs.Structure.Grid
import Chronicle.Structure.Bag
/-!
What a bag of structures can be asked for.

Through an operation the content of a structure can become anything, except for tables: those are
changed by operations of their own.  So the tables in a bag stay full, and all other content is
free (`Bag.Operation.keeps`).
-/

namespace Chronicle

/-- If the body is a table, its cells fill the grid. -/
def Body.Full (body : Body) : Prop := ∀ t, body = .table t → t.Full

theorem Body.full_of {kind : StructureKind} (hkind : kind ≠ .table) (content : kind.Content) :
    (Body.of kind content).Full := by
  intro t ht
  cases kind <;> simp_all [Body.of]

theorem Body.full_emptyContent (kind : StructureKind) :
    (Body.of kind kind.emptyContent).Full := by
  intro t ht
  cases kind with
  | table =>
      obtain rfl := Body.table.inj ht
      exact Table.full_empty
  | symbolSet => cases ht
  | symbolMapping => cases ht
  | stack => cases ht

theorem Body.Full.settled {body : Body} (h : body.Full) : body.settled.Full := by
  intro t ht
  cases body with
  | table t' =>
      obtain rfl := Body.table.inj ht
      exact (h t' rfl).mapCells SymbolSet.settled
  | symbolSet set => cases ht
  | symbolMapping mapping => cases ht
  | stack s => cases ht

theorem Body.eq_of_as?_eq_some {kind : StructureKind} {body : Body} {content : kind.Content}
    (h : body.as? kind = some content) : body = .of kind content := by
  cases kind <;> cases body <;> cases h <;> rfl

theorem Structure.contentOf_eq_ok {s : Structure} {kind : StructureKind} {id : String}
    {content : kind.Content} (h : s.contentOf kind id = .ok content) :
    s.body = .of kind content := by
  unfold contentOf at h
  split at h
  · next present hpresent =>
      obtain rfl := Except.ok.inj h
      exact Body.eq_of_as?_eq_some hpresent
  · cases h

namespace Bag

variable {bag : Bag} {id : String} {s : Structure}

/-- The cells of all tables fill their grids. -/
def Full (bag : Bag) : Prop := ∀ id s, bag.get? id = some s → s.body.Full

/-! ### Operations -/

/-- What a bag can be asked for.  Content that is no table can be changed in any way. -/
inductive Operation
  | openContent (kind : StructureKind) (id name : String)
  | editContent (kind : StructureKind) (hkind : kind ≠ .table) (id : String)
      (f : kind.Content → kind.Content)
  | editTable (id : String) (op : Table.Operation)
  | rename (id name : String)
  | setPriority (id : String) (priority : Int32)
  | mark (id : String) (tag : Tag)
  | remove (id : String)
  | settle

/-- The edit that an operation is. -/
def Operation.edit : Operation → Edit Bag Unit
  | openContent kind id name => discard (Bag.openContent kind id name)
  | editContent kind _ id f => Bag.editContent kind id fun content => ((), f content)
  | editTable id op => Bag.editContent .table id fun t => ((), op.perform t)
  | rename id name => modify fun bag => (bag.editEntry id fun s => ((), { s with name })).2
  | setPriority id priority =>
    modify fun bag => (bag.editEntry id fun s => ((), { s with priority })).2
  | mark id tag => modify fun bag => (bag.editEntry id (·.mark tag)).2
  | remove id => discard (Bag.remove id)
  | settle => modify settled

/-! ### Full bags -/

theorem require_eq_ok (h : bag.require id = .ok s) : bag.get? id = some s := by
  unfold require at h
  split at h
  · next present hpresent =>
      obtain rfl := Except.ok.inj h
      exact hpresent
  · cases h

theorem full_empty : empty.Full := fun _ _ h => by simp [empty, get?] at h

namespace Full

theorem put (h : bag.Full) (hs : s.body.Full) (id : String) : (bag.put id s).Full := by
  intro id' s' hs'
  rw [Bag.put, Bag.get?, SortedMap.get?_insert] at hs'
  split at hs'
  · exact Option.some.inj hs' ▸ hs
  · exact h id' s' hs'

theorem editEntry {α : Type} (h : bag.Full) (id : String) (f : Structure → α × Structure)
    (hf : ∀ s, (f s).2.body = s.body) : (bag.editEntry id f).2.Full := by
  unfold Bag.editEntry
  split
  · next s hs =>
      refine h.put ?_ id
      rw [hf]
      exact h id s hs
  · exact h

theorem settled (h : bag.Full) : bag.settled.Full := by
  intro id s hs
  rw [Bag.settled, Bag.get?, SortedMap.get?_mapValues] at hs
  obtain ⟨before, hbefore, rfl⟩ := Option.map_eq_some_iff.mp hs
  exact (h id before hbefore).settled

end Full

theorem keeps_openContent (kind : StructureKind) (id name : String) :
    Edit.Keeps Full (openContent kind id name) := by
  refine .atomic fun bag content next h heq => ?_
  split at heq
  · next s hs =>
      cases hcontent : s.contentOf kind id with
      | error e =>
          rw [hcontent] at heq
          cases heq
      | ok present =>
          rw [hcontent] at heq
          obtain ⟨-, rfl⟩ := Prod.mk.inj (Except.ok.inj heq)
          exact h
  · obtain ⟨-, rfl⟩ := Prod.mk.inj (Except.ok.inj heq)
    exact h.put (Body.full_emptyContent kind) id

theorem keeps_editContent {α : Type} (kind : StructureKind) (id : String)
    (f : kind.Content → α × kind.Content)
    (hf : ∀ content, (Body.of kind content).Full → (Body.of kind (f content).2).Full) :
    Edit.Keeps Full (editContent kind id f) := by
  refine .atomic fun bag answer next h heq => ?_
  obtain ⟨s, hs, heq⟩ := exists_of_bind_eq_ok heq
  obtain ⟨content, hcontent, heq⟩ := exists_of_bind_eq_ok heq
  obtain ⟨-, rfl⟩ := Prod.mk.inj (Except.ok.inj heq)
  refine h.put (hf content ?_) id
  rw [← Structure.contentOf_eq_ok hcontent]
  exact h id s (require_eq_ok hs)

theorem keeps_remove (id : String) : Edit.Keeps Full (remove id) := by
  refine .atomic fun bag answer next h heq => ?_
  obtain ⟨s, -, heq⟩ := exists_of_bind_eq_ok heq
  obtain ⟨-, rfl⟩ := Prod.mk.inj (Except.ok.inj heq)
  intro id' s' hs'
  rw [get?, SortedMap.get?_erase] at hs'
  split at hs'
  · cases hs'
  · exact h id' s' hs'

/-- Whether it succeeds or not, an operation leaves all tables full. -/
theorem Operation.keeps (op : Operation) : Edit.Keeps Full op.edit := by
  cases op with
  | openContent kind id name => exact (keeps_openContent kind id name).discard
  | editContent kind hkind id f =>
      exact keeps_editContent kind id (fun content => ((), f content)) fun content _ =>
        Body.full_of hkind (f content)
  | editTable id op =>
      refine keeps_editContent .table id (fun t => ((), op.perform t)) fun t ht t' ht' => ?_
      obtain rfl := Body.table.inj ht'
      exact (ht t rfl).perform op
  | rename id name => exact fun bag h => h.editEntry id _ fun _ => rfl
  | setPriority id priority => exact fun bag h => h.editEntry id _ fun _ => rfl
  | mark id tag => exact fun bag h => h.editEntry id _ fun _ => rfl
  | remove id => exact (keeps_remove id).discard
  | settle => exact fun bag h => h.settled

end Bag

end Chronicle
