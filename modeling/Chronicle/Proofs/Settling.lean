import Chronicle.Proofs.Grammar.Rewriting
import Chronicle.Proofs.Snapshot
import Chronicle.Proofs.Structure.Cells
/-!
Archiving once is enough.

An archive holds what is left when the proposals of a snapshot are made true (`settled`): nothing
that is tagged as removed, only tags that last, and one membership for each set.  Settling again
changes none of that.  So if an archive can be read at all, what is read has the same archive.

Nothing is asked of the grammar here.  That the archive can be read says enough about its names
(`Grammar.Dense.named_of_ofData`), and that there is one says that no reference is dangling.  Of
the structures only the tables matter, because reading one fills up its grid.
-/

namespace Chronicle

/-! ### What lasts -/

/-- All tags in the data are `ok`. -/
def BodyData.Tagged (ok : Tag → Prop) : BodyData → Prop
  | .symbolSet _ tag => ok tag
  | .table _ _ cells => ∀ row ∈ cells.toList, ∀ cell ∈ row.2.toList, ok cell.2.tag
  | .symbolMapping _ => True
  | .stack _ => True

/-- All tags in the data are `ok`. -/
structure StructureData.Tagged (ok : Tag → Prop) (data : StructureData) : Prop where
  own : ok data.tag
  body : data.body.Tagged ok

/-- All tags in the data are `ok`. -/
structure SnapshotData.Tagged (ok : Tag → Prop) (data : SnapshotData) : Prop where
  grammar : data.grammar.Tagged ok
  structures : ∀ entry ∈ data.structures.toList, entry.2.Tagged ok

theorem SortedMap.exists_of_mem_mapValues {κ α β : Type} [Ord κ] [Std.TransOrd κ]
    {m : SortedMap κ α} {f : κ → α → β} {pair : κ × β} (h : pair ∈ (m.mapValues f).toList) :
    ∃ value, (pair.1, value) ∈ m.toList ∧ pair.2 = f pair.1 value := by
  obtain ⟨⟨key, value⟩, hmem, rfl⟩ := List.mem_map.mp h
  exact ⟨value, hmem, rfl⟩

theorem Body.tagged_settled (body : Body) : body.settled.toData.Tagged (· ∈ Tag.lasting) := by
  cases body with
  | symbolSet set => exact set.tag.decay_mem_lasting
  | table t =>
      intro row hrow cell hcell
      obtain ⟨settledCells, hsettled, hrow⟩ := SortedMap.exists_of_mem_mapValues hrow
      obtain ⟨cells, -, rfl⟩ := SortedMap.exists_of_mem_mapValues hsettled
      rw [hrow, SortedMap.mapValues_mapValues] at hcell
      obtain ⟨set, -, hcell⟩ := SortedMap.exists_of_mem_mapValues hcell
      rw [hcell]
      exact set.tag.decay_mem_lasting
  | symbolMapping mapping => trivial
  | stack s => trivial

theorem Bag.tagged_settled (bag : Bag) :
    ∀ entry ∈ bag.settled.toData.toList, entry.2.Tagged (· ∈ Tag.lasting) := by
  intro entry hentry
  obtain ⟨settled, hsettled, hentry⟩ := SortedMap.exists_of_mem_mapValues hentry
  obtain ⟨s, -, rfl⟩ := SortedMap.exists_of_mem_mapValues hsettled
  rw [hentry]
  exact ⟨s.tag.decay_mem_lasting, s.body.tagged_settled⟩

/-! ### Settling twice -/

@[simp]
theorem SymbolSet.settled_settled (s : SymbolSet) : s.settled.settled = s.settled := by
  simp [settled]

@[simp]
theorem Body.settled_settled (body : Body) : body.settled.settled = body.settled := by
  cases body with
  | symbolSet set => simp [settled]
  | table t =>
      simp only [settled, Table.settled, SortedMap.mapValues_mapValues, SymbolSet.settled_settled]
  | symbolMapping mapping => rfl
  | stack s => rfl

@[simp]
theorem Structure.settled_settled (s : Structure) : s.settled.settled = s.settled := by
  simp [settled]

@[simp]
theorem Bag.settled_settled (bag : Bag) : bag.settled.settled = bag.settled := by
  simp only [settled, SortedMap.mapValues_mapValues, Structure.settled_settled]

/-! ### Grammars whose data can be read -/

namespace Grammar

variable {g g' : Grammar}

/-- Reading looks at every name, so a grammar whose data can be read has proper names only. -/
theorem Dense.named_of_ofData (hdense : g.Dense) (h : ofData g.toData = .ok g') :
    g.outline.Named := by
  obtain ⟨g₁, hnonterminals, h⟩ := exists_of_bind_eq_ok h
  obtain ⟨g₂, hterminals, h⟩ := exists_of_bind_eq_ok h
  obtain ⟨_, hstart, hrules⟩ := exists_of_bind_eq_ok h
  have hread : ∀ b name tag kind b', OnlySymbols g.start b →
      b.withSymbol name tag (some kind) = .ok b' → SymbolKind.ofName? name = some kind := by
    intro b name tag kind b' _ heq
    obtain ⟨kind', hname, hkind, -⟩ := withSymbol_eq_ok heq
    rw [hname, hkind kind rfl]
  have h₁ : OnlySymbols g.start g₁ := inv_of_foldlM_eq_ok _ (.empty g.start)
    (fun _ _ _ hb heq => hb.withSymbol heq) hnonterminals
  have h₂ : OnlySymbols g.start g₂ := inv_of_foldlM_eq_ok _ h₁
    (fun _ _ _ hb heq => hb.withSymbol heq) hterminals
  refine ⟨fun s hs => ?_, fun s hs => ?_, fun key hkey => ?_⟩
  · obtain ⟨tag, htag⟩ := hs
    obtain ⟨b, b', hb, hstep⟩ := exists_step_of_foldlM (OnlySymbols g.start)
      (SortedMap.get?_eq_some_iff.mp htag) (.empty g.start)
      (fun _ _ _ hb heq => hb.withSymbol heq) hnonterminals
    exact hread b s tag .nonterminal b' hb hstep
  · obtain ⟨tag, htag⟩ := hs
    obtain ⟨b, b', hb, hstep⟩ := exists_step_of_foldlM (OnlySymbols g.start)
      (SortedMap.get?_eq_some_iff.mp htag) h₁ (fun _ _ _ hb heq => hb.withSymbol heq) hterminals
    exact hread b s tag .terminal b' hb hstep
  · -- The group of the rule is read, and before that its left side has to be a nonterminal.
    obtain ⟨tag, htag⟩ := hkey
    obtain ⟨group, hgroup, -⟩ := ruleTag?_eq_some.mp htag
    have hmem : (key.left, textsOf group) ∈ g.toData.rules.toList :=
      (mem_toData_rules hdense).mpr ⟨group, hgroup, rfl⟩
    obtain ⟨b, b', hb, hstep⟩ := exists_step_of_foldlM Sound hmem
      (h₂.sound (requireNonterminal_eq_ok.mp hstart))
      (fun _ _ _ hb heq => stable_sound.addArchivedGroup hb heq) hrules
    obtain ⟨_, hleft, -⟩ := exists_of_bind_eq_ok hstep
    exact hb.named.nonterminal key.left (requireNonterminal_eq_ok.mp hleft)

/-- What an archive holds and what can be read is a grammar for which nothing is proposed. -/
theorem intact_settled_of_ofData (hcheck : g.settled.checkReferences = .ok ())
    (h : ofData g.settled.toData = .ok g') : g.settled.Intact := by
  have hfinalize : finalize.apply g.settled = (.ok (), g.settled) := by
    rw [apply_finalize, settled_settled, hcheck]
  exact (intact_of_finalize ((dense_settled g).named_of_ofData h) hfinalize).2

end Grammar

/-! ### Tables -/

/-- All tables in the bag are attained; everything else in it can be anything. -/
def Bag.TablesAttained (bag : Bag) : Prop :=
  ∀ id entry t, bag.get? id = some entry → entry.body = .table t → t.Attained

theorem Bag.TablesAttained.full {bag : Bag} (h : bag.TablesAttained) : bag.Full :=
  fun id entry hentry t ht => (h id entry t hentry ht).full

theorem Bag.tablesAttained_empty : empty.TablesAttained :=
  fun _ _ _ h => by simp [empty, get?] at h

theorem Bag.TablesAttained.put {bag : Bag} {s : Structure} (h : bag.TablesAttained)
    (hs : ∀ t, s.body = .table t → t.Attained) (id : String) : (bag.put id s).TablesAttained := by
  intro id' entry t hentry ht
  rw [Bag.put, Bag.get?, SortedMap.get?_insert] at hentry
  split at hentry
  · obtain rfl := Option.some.inj hentry
    exact hs t ht
  · exact h id' entry t hentry ht

/-! ### Archives of archives -/

namespace Snapshot

variable {s s' : Snapshot} {data : SnapshotData}

theorem tagged_of_archive (h : s.archive = .ok data) : data.Tagged (· ∈ Tag.lasting) := by
  obtain ⟨-, rfl⟩ := archive_eq_ok.mp h
  exact ⟨(Grammar.tagged_settled s.grammar).toData, s.structures.tagged_settled⟩

/-- What is read from an archive is what was archived, with one membership for each set. -/
theorem eq_committed_of_materialize (hfull : s.structures.Full) (h : s.archive = .ok data)
    (hread : data.materialize = .ok s') :
    s' = committed ⟨s.grammar.settled, s.structures.settled⟩ := by
  obtain ⟨hcheck, rfl⟩ := archive_eq_ok.mp h
  obtain ⟨g, hgrammar, -⟩ := exists_of_bind_eq_ok hread
  have hcoherent : Coherent ⟨s.grammar.settled, s.structures.settled⟩ :=
    ⟨(Grammar.intact_settled_of_ofData hcheck hgrammar).sound, hfull.settled⟩
  have hmembers := hcoherent.materializes_iff.mp ⟨s', hread⟩
  rw [hcoherent.materialize_toData hmembers] at hread
  exact (Except.ok.inj hread).symm

/-- What an archive holds is archived as it is. -/
theorem archive_settled (h : s.archive = .ok data) :
    archive ⟨s.grammar.settled, s.structures.settled⟩ = .ok data := by
  obtain ⟨hcheck, rfl⟩ := archive_eq_ok.mp h
  rw [archive_eq_ok, Grammar.settled_settled, Bag.settled_settled]
  exact ⟨hcheck, rfl⟩

/-- **Archiving is idempotent**, and an archive has lasting tags only. -/
theorem archive_idempotent (htables : s.structures.TablesAttained) (h : s.archive = .ok data) :
    (∀ s', data.materialize = .ok s' → s'.archive = .ok data) ∧
      data.Tagged (· ∈ [Tag.none, .attentionPersistent, .attentionWasSet, .specialPersistent]) := by
  refine ⟨fun s' hread => ?_, tagged_of_archive h⟩
  rw [eq_committed_of_materialize htables.full h hread, archive_committed]
  exact archive_settled h

/-- One cell, with a member that is only proposed and a tag that fades in two steps. -/
def sampleTable : Table :=
  [Table.Operation.addRow "S" "S", .addColumn "a" "a",
    .editCell "S" "a" fun cell => ((cell.add "S -> a").2.mark .attentionWillTransfer).2].foldl
    (fun t op => op.perform t) .empty

/-- The snapshot `sampleStart` in the middle of a step that emphasises this and that. -/
def sampleMarked : Snapshot where
  grammar := ⟨.ofList [("S", .attentionNow), ("A", .removed)], .ofList [("a", .new)],
    .ofList [("S", .ofList [(⟨["a"]⟩, .attentionWillTransfer), (⟨["A"]⟩, .removed)])], "S"⟩
  structures :=
    .put (.put .empty "set" ⟨"set", "S/0", .specialPersistent, 1,
      .symbolSet ⟨.empty, .ofList ["a"], .specialTemporary⟩⟩)
      "table" ⟨"table", "T", .attentionPersistent, 1, .table sampleTable⟩

theorem tablesAttained_sampleMarked : sampleMarked.structures.TablesAttained := by
  refine (Bag.tablesAttained_empty.put (fun t ht => ?_) "set").put (fun t ht => ?_) "table"
  · cases ht
  · obtain rfl := Body.table.inj ht
    exact .performAll .empty _

theorem archive_idempotent_sample : ∃ data s', sampleMarked.archive = .ok data ∧
    data.materialize = .ok s' ∧ s'.archive = .ok data ∧ s' ≠ sampleMarked := by
  have harchive : sampleMarked.archive = .ok
      (toData ⟨sampleMarked.grammar.settled, sampleMarked.structures.settled⟩) :=
    archive_eq_ok.mpr ⟨by decide, rfl⟩
  have hread : SnapshotData.materialize
      (toData ⟨sampleMarked.grammar.settled, sampleMarked.structures.settled⟩) = .ok
        (committed ⟨sampleMarked.grammar.settled, sampleMarked.structures.settled⟩) := by decide
  exact ⟨_, _, harchive, hread,
    (archive_idempotent tablesAttained_sampleMarked harchive).1 _ hread, by decide⟩

end Snapshot

end Chronicle
