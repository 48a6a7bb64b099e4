import Chronicle.Proofs.Grammar.RoundTrip
import Chronicle.Proofs.Structure.Operations
/-!
Archived structures, read again.

Of the two memberships of a set only the proposed one is archived, so what is read again is the
structure with its proposals made true (`committed`).  The members of a symbol set have to be
symbols of the grammar or the empty word; the first that is neither is what reading complains about
(`unknown?`).  Nothing else can go wrong with what a bag archives.
-/

namespace Chronicle

/-! ### One structure -/

namespace Body

variable {g : Grammar} {body : Body}

/-- The body with the proposed members of its sets for the effective ones. -/
def committed : Body → Body
  | symbolSet set => symbolSet set.committed
  | table t => table t.committed
  | symbolMapping mapping => symbolMapping mapping
  | stack s => stack s

/-- The first proposed member of a symbol set that is neither a symbol nor the empty word. -/
def unknown? (g : Grammar) : Body → Option String
  | symbolSet set => set.pending.find? fun item => item != epsilonText && !g.containsSymbol item
  | _ => none

theorem unknown?_eq_none_iff : body.unknown? g = none ↔ ∀ set, body = .symbolSet set →
    ∀ item ∈ set.pending, item = epsilonText ∨ g.containsSymbol item = true := by
  cases body with
  | symbolSet set => simp [unknown?, or_iff_not_imp_left]
  | table t => simp [unknown?]
  | symbolMapping mapping => simp [unknown?]
  | stack s => simp [unknown?]

theorem exists_of_unknown?_eq_some {item : String} (h : body.unknown? g = some item) :
    ∃ set, body = .symbolSet set ∧ item ∈ set.pending ∧ item ≠ epsilonText ∧
      g.containsSymbol item = false := by
  cases body with
  | symbolSet set =>
      have hitem := List.find?_some h
      simp only [Bool.and_eq_true, bne_iff_ne, Bool.not_eq_true'] at hitem
      exact ⟨set, rfl, List.mem_of_find?_eq_some h, hitem⟩
  | table t => cases h
  | symbolMapping mapping => cases h
  | stack s => cases h

@[simp]
theorem toData_committed (body : Body) : body.committed.toData = body.toData := by
  cases body with
  | symbolSet set => rfl
  | table t =>
      simp only [committed, toData, Table.committed, Table.mapCells, SortedMap.mapValues_mapValues]
      rfl
  | symbolMapping mapping => rfl
  | stack s => rfl

@[simp]
theorem settled_committed (body : Body) : body.committed.settled = body.settled := by
  cases body with
  | symbolSet set => rfl
  | table t =>
      simp only [committed, settled, Table.committed, Table.mapCells, Table.settled,
        SortedMap.mapValues_mapValues]
      rfl
  | symbolMapping mapping => rfl
  | stack s => rfl

theorem ofData_toData (h : body.Full) (id : String) : ofData g id body.toData =
    match body.unknown? g with
    | some item => .error (.invalidData (.unknownMember id item))
    | none => .ok body.committed := by
  cases body with
  | symbolSet set =>
      rw [committed, ← set.ofList_pending]
      rfl
  | table t =>
      simp only [toData, ofData, unknown?, committed, (h t rfl).ofData_eq]
  | symbolMapping mapping => rfl
  | stack s => rfl

theorem full_of_ofData {id : String} {data : BodyData} (h : ofData g id data = .ok body) :
    body.Full := by
  intro t ht
  subst ht
  cases data with
  | symbolSet members tag =>
      rw [ofData] at h
      split at h
      · cases h
      · cases h
  | table rows columns cells =>
      obtain rfl := Body.table.inj (Except.ok.inj h)
      exact Table.full_ofData rows columns cells
  | symbolMapping pairs => cases h
  | stack items => cases h

end Body

namespace Structure

variable {g : Grammar} {s : Structure}

/-- The structure with the proposed members of its sets for the effective ones. -/
def committed (s : Structure) : Structure := { s with body := s.body.committed }

@[simp]
theorem toData_committed (s : Structure) : s.committed.toData = s.toData := by
  simp [committed, toData]

@[simp]
theorem settled_committed (s : Structure) : s.committed.settled = s.settled := by
  simp [committed, settled]

theorem ofData_toData_of_none (hfull : s.body.Full) (h : s.body.unknown? g = none) :
    ofData g s.toData = .ok s.committed := by
  rw [ofData, toData]
  simp only [Body.ofData_toData hfull, h]
  rfl

theorem ofData_toData_of_some {item : String} (hfull : s.body.Full)
    (h : s.body.unknown? g = some item) :
    ofData g s.toData = .error (.invalidData (.unknownMember s.id item)) := by
  rw [ofData, toData]
  simp only [Body.ofData_toData hfull, h]
  rfl

end Structure

/-! ### Reading one structure after the other -/

section

variable {κ α β ε : Type} [Ord κ] [Std.TransOrd κ]

/-- Read a value and store it. -/
def readEntry (read : α → Except ε β) (m : SortedMap κ β) (pair : κ × α) :
    Except ε (SortedMap κ β) := do
  return m.insert pair.1 (← read pair.2)

/-- If every value can be read, the whole map can. -/
theorem foldlM_readEntry_eq_ok [Std.LawfulEqOrd κ] [DecidableEq κ] {read : α → Except ε β}
    {f : α → β} (m : SortedMap κ α) (h : ∀ key a, m.get? key = some a → read a = .ok (f a)) :
    m.toList.foldlM (readEntry read) .empty = .ok (m.mapValues fun _ => f) := by
  have hstep : ∀ pair ∈ m.toList, ∀ m' : SortedMap κ β, True →
      readEntry read m' pair = .ok (m'.insert pair.1 (f pair.2)) ∧ True := by
    intro pair hpair m' _
    rw [readEntry, h pair.1 pair.2 (SortedMap.get?_eq_some_iff.mpr hpair)]
    exact ⟨rfl, trivial⟩
  rw [(foldlM_eq_ok (fun _ => True) trivial hstep).1,
    ← SortedMap.ofList_toList (m.mapValues fun _ => f), SortedMap.ofList, SortedMap.mapValues,
    List.foldl_map]

/-- If some value cannot be read, then the complaint about one of them is what comes. -/
theorem foldlM_readEntry_eq_error (read : α → Except ε β) (l : List (κ × α)) (m : SortedMap κ β)
    (h : ∃ pair ∈ l, ∃ e, read pair.2 = .error e) :
    ∃ pair ∈ l, ∃ e, read pair.2 = .error e ∧ l.foldlM (readEntry read) m = .error e := by
  induction l generalizing m with
  | nil =>
      obtain ⟨pair, hpair, -⟩ := h
      simp at hpair
  | cons first rest ih =>
      rw [List.foldlM_cons, readEntry]
      cases hfirst : read first.2 with
      | error e => exact ⟨first, List.mem_cons_self, e, hfirst, rfl⟩
      | ok b =>
          have hrest : ∃ pair ∈ rest, ∃ e, read pair.2 = .error e := by
            obtain ⟨pair, hpair, e, he⟩ := h
            rcases List.mem_cons.mp hpair with rfl | hpair
            · rw [hfirst] at he
              cases he
            · exact ⟨pair, hpair, e, he⟩
          obtain ⟨pair, hpair, e, he, hfold⟩ := ih (m.insert first.1 b) hrest
          exact ⟨pair, List.mem_cons_of_mem _ hpair, e, he, hfold⟩

end

namespace Bag

variable {bag : Bag} {g : Grammar}

/-- The bag with the proposed members of all sets for the effective ones. -/
def committed (bag : Bag) : Bag := ⟨bag.entries.mapValues fun _ => Structure.committed⟩

@[simp]
theorem toData_committed (bag : Bag) : bag.committed.toData = bag.toData := by
  simp only [committed, toData, SortedMap.mapValues_mapValues, Structure.toData_committed]

@[simp]
theorem settled_committed (bag : Bag) : bag.committed.settled = bag.settled := by
  simp only [committed, settled, SortedMap.mapValues_mapValues, Structure.settled_committed]

/-- What a bag archives is read structure by structure. -/
theorem ofData_toData_eq (bag : Bag) : ofData g bag.toData =
    (bag.entries.toList.foldlM (readEntry fun s => Structure.ofData g s.toData) .empty).map
      Bag.mk := by
  rw [ofData, toData, SortedMap.mapValues, List.foldlM_map]
  rfl

/-- **A bag of full tables and of sets of symbols comes back**, its proposals made true. -/
theorem Full.ofData_toData (hfull : bag.Full)
    (h : ∀ id s, bag.get? id = some s → s.body.unknown? g = none) :
    ofData g bag.toData = .ok bag.committed := by
  have hread : ∀ id s, bag.entries.get? id = some s →
      Structure.ofData g s.toData = .ok s.committed := fun id s hs =>
    Structure.ofData_toData_of_none (hfull id s hs) (h id s hs)
  rw [ofData_toData_eq, foldlM_readEntry_eq_ok bag.entries hread]
  rfl

/-- With a member that is no symbol it does not. -/
theorem Full.ofData_toData_of_unknown (hfull : bag.Full)
    (h : ∃ id s, bag.get? id = some s ∧ s.body.unknown? g ≠ none) :
    ∃ id s item, bag.get? id = some s ∧ s.body.unknown? g = some item ∧
      ofData g bag.toData = .error (.invalidData (.unknownMember s.id item)) := by
  obtain ⟨id, s, hs, hunknown⟩ := h
  obtain ⟨item, hitem⟩ := Option.ne_none_iff_exists'.mp hunknown
  have hread : ∃ pair ∈ bag.entries.toList, ∃ e, Structure.ofData g pair.2.toData = .error e :=
    ⟨(id, s), SortedMap.get?_eq_some_iff.mp hs, _,
      Structure.ofData_toData_of_some (hfull id s hs) hitem⟩
  obtain ⟨pair, hpair, e, he, hfold⟩ := foldlM_readEntry_eq_error
    (fun s => Structure.ofData g s.toData) bag.entries.toList .empty hread
  have hget : bag.get? pair.1 = some pair.2 := SortedMap.get?_eq_some_iff.mpr hpair
  cases hpair' : pair.2.body.unknown? g with
  | none =>
      rw [Structure.ofData_toData_of_none (hfull _ _ hget) hpair'] at he
      cases he
  | some item' =>
      rw [Structure.ofData_toData_of_some (hfull _ _ hget) hpair'] at he
      refine ⟨pair.1, pair.2, item', hget, hpair', ?_⟩
      rw [ofData_toData_eq, hfold, Except.error.inj he]
      rfl

/-- What is read has full tables, whatever was archived. -/
theorem full_of_ofData {data : SortedMap String StructureData} (h : ofData g data = .ok bag) :
    bag.Full := by
  obtain ⟨entries, hentries, heq⟩ := exists_of_bind_eq_ok h
  obtain rfl := Except.ok.inj heq
  refine inv_of_foldlM_eq_ok (fun entries => (⟨entries⟩ : Bag).Full) full_empty ?_ hentries
  intro entries pair next hfull hnext
  obtain ⟨s, hs, hnext⟩ := exists_of_bind_eq_ok hnext
  obtain ⟨body, hbody, hs⟩ := exists_of_bind_eq_ok hs
  obtain rfl := Except.ok.inj hnext
  refine hfull.put ?_ pair.1
  rw [← Except.ok.inj hs]
  exact Body.full_of_ofData hbody

end Bag

end Chronicle
