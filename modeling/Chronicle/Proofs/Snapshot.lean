import Chronicle.Proofs.Grammar.Integrity
import Chronicle.Proofs.Structure.Archive
import Chronicle.Snapshot
/-!
Snapshots, archived and materialized.

The grammar of a snapshot that is attained is sound and its tables are full (`Coherent`).  Then the
plain data of the snapshot says all that there is to it, but for the effective members of its sets:
materializing the data gives the snapshot with its proposals made true (`committed`), and that one
has the same data and the same archive.  Symbol sets must only mention symbols.
-/

namespace Chronicle

/-- What the archived symbol sets hold are symbols of the archived grammar and the empty word. -/
def SnapshotData.MembersKnown (data : SnapshotData) : Prop :=
  ∀ id entry members tag, data.structures.get? id = some entry →
    entry.body = .symbolSet members tag → ∀ item ∈ members, item = epsilonText ∨
      data.grammar.nonterminals.contains item = true ∨ data.grammar.terminals.contains item = true

namespace Snapshot

variable {s : Snapshot}

/-! ### What is attained -/

/-- What a snapshot can be asked for. -/
inductive Operation
  | grammar (op : Grammar.Operation)
  | structures (op : Bag.Operation)
  | finalize

/-- The edit that an operation is. -/
def Operation.edit : Operation → Edit Snapshot Unit
  | grammar op => editGrammar op.edit
  | structures op => editStructures op.edit
  | finalize => Snapshot.finalize

/-- Does the operation make the proposals of the grammar true? -/
def Operation.Finalizes : Operation → Prop
  | grammar op => op = .finalize
  | structures _ => False
  | finalize => True

/-- The snapshots that are materialized, or begun with a grammar, and changed by operations.  An
operation may fail; after a failed finalizing there is no snapshot to go on with. -/
inductive Attained : Snapshot → Prop
  | materialize {s : Snapshot} {data : SnapshotData} (h : data.materialize = .ok s) : Attained s
  | ofGrammar {g : Grammar} (h : g.Attained) : Attained (.ofGrammar g)
  | edit {s : Snapshot} (h : Attained s) (op : Operation)
      (hfinalize : op.Finalizes → (op.edit.apply s).1 = .ok ()) : Attained (op.edit.apply s).2

/-- The grammar is sound and the tables are full. -/
structure Coherent (s : Snapshot) : Prop where
  grammar : s.grammar.Sound
  structures : s.structures.Full

theorem apply_finalize (s : Snapshot) : finalize.apply s =
    match Grammar.finalize.apply s.grammar with
    | (.ok _, g) => (.ok (), ⟨g, s.structures.settled⟩)
    | (.error e, g) => (.error e, ⟨g, s.structures⟩) := by
  rw [finalize, Edit.apply_bind, editGrammar, Edit.apply_on]
  match Grammar.finalize.apply s.grammar with
  | (.ok _, g) => rfl
  | (.error e, g) => rfl

theorem coherent_of_materialize {data : SnapshotData} (h : data.materialize = .ok s) :
    s.Coherent := by
  obtain ⟨g, hgrammar, h⟩ := exists_of_bind_eq_ok h
  obtain ⟨bag, hbag, h⟩ := exists_of_bind_eq_ok h
  obtain rfl := Except.ok.inj h
  exact ⟨Grammar.sound_of_ofData hgrammar, Bag.full_of_ofData hbag⟩

theorem Coherent.finalize (h : s.Coherent) (hok : (finalize.apply s).1 = .ok ()) :
    (finalize.apply s).2.Coherent := by
  rw [apply_finalize] at hok ⊢
  match hfinalize : Grammar.finalize.apply s.grammar with
  | (.ok _, g) =>
      exact ⟨(Grammar.intact_of_finalize h.grammar.named hfinalize).2.sound, h.structures.settled⟩
  | (.error e, g) =>
      rw [hfinalize] at hok
      cases hok

theorem Coherent.edit (h : s.Coherent) (op : Operation)
    (hfinalize : op.Finalizes → (op.edit.apply s).1 = .ok ()) : (op.edit.apply s).2.Coherent := by
  cases op with
  | grammar op => exact ⟨h.grammar.edit op hfinalize, h.structures⟩
  | structures op => exact ⟨h.grammar, op.keeps s.structures h.structures⟩
  | finalize => exact h.finalize (hfinalize trivial)

theorem Attained.coherent (h : s.Attained) : s.Coherent := by
  induction h with
  | materialize h => exact coherent_of_materialize h
  | ofGrammar h => exact ⟨h.sound, Bag.full_empty⟩
  | edit _ op hfinalize ih => exact ih.edit op hfinalize

/-- The archive holds what making the proposals true leaves, if no reference is dangling then. -/
theorem archive_eq_ok {data : SnapshotData} : s.archive = .ok data ↔
    s.grammar.settled.checkReferences = .ok () ∧
      data = toData ⟨s.grammar.settled, s.structures.settled⟩ := by
  rw [archive, apply_finalize, Grammar.apply_finalize]
  cases s.grammar.settled.checkReferences with
  | error e => simp
  | ok _ => simp [eq_comm]

/-- A snapshot whose grammar cannot be finalized cannot be archived. -/
theorem archive_eq_error {e : EngineError} {g : Grammar}
    (h : Grammar.finalize.apply s.grammar = (.error e, g)) : s.archive = .error e := by
  rw [archive, apply_finalize, h]

/-- What is read again of an archived sound grammar is the settled one. -/
theorem ofData_of_archive {data : SnapshotData} (hs : s.grammar.Sound) (h : s.archive = .ok data) :
    Grammar.ofData data.grammar = .ok s.grammar.settled := by
  obtain ⟨hcheck, rfl⟩ := archive_eq_ok.mp h
  exact (Grammar.intact_of_finalize hs.named
    (Grammar.finalize_of_check hcheck)).2.sound.ofData_toData

/-! ### The way there and back -/

/-- The snapshot with the proposed members of all sets for the effective ones. -/
def committed (s : Snapshot) : Snapshot := { s with structures := s.structures.committed }

/-- What symbol sets propose to hold are symbols of the grammar and the empty word. -/
def MembersKnown (s : Snapshot) : Prop :=
  ∀ id entry set, s.structures.get? id = some entry → entry.body = .symbolSet set →
    ∀ item ∈ set.pending, item = epsilonText ∨ s.grammar.containsSymbol item = true

theorem membersKnown_iff : s.MembersKnown ↔
    ∀ entry ∈ s.structures.entries.values, entry.body.unknown? s.grammar = none := by
  constructor
  · intro h entry hentry
    obtain ⟨⟨id, entry'⟩, hpair, rfl⟩ := List.mem_map.mp hentry
    exact Body.unknown?_eq_none_iff.mpr fun set hset =>
      h id entry' set (SortedMap.get?_eq_some_iff.mpr hpair) hset
  · intro h id entry set hentry hset
    have hmem : entry ∈ s.structures.entries.values :=
      List.mem_map.mpr ⟨(id, entry), SortedMap.get?_eq_some_iff.mp hentry, rfl⟩
    exact Body.unknown?_eq_none_iff.mp (h entry hmem) set hset

instance (s : Snapshot) : Decidable s.MembersKnown := decidable_of_iff _ membersKnown_iff.symm

/-- The symbol set with the id `id` proposes to hold `item`, which is neither. -/
def UnknownMember (s : Snapshot) (id item : String) : Prop :=
  ∃ key entry set, s.structures.get? key = some entry ∧ entry.id = id ∧
    entry.body = .symbolSet set ∧ item ∈ set.pending ∧ item ≠ epsilonText ∧
    s.grammar.containsSymbol item = false

theorem Coherent.materialize_toData (h : s.Coherent) (hmembers : s.MembersKnown) :
    s.toData.materialize = .ok s.committed := by
  have hgrammar : Grammar.ofData s.toData.grammar = .ok s.grammar := h.grammar.ofData_toData
  have hbag : Bag.ofData s.grammar s.toData.structures = .ok s.structures.committed :=
    h.structures.ofData_toData fun id entry hentry =>
      Body.unknown?_eq_none_iff.mpr fun set hset => hmembers id entry set hentry hset
  simp only [SnapshotData.materialize, hgrammar, hbag, bind, Except.bind, pure, Except.pure]
  rfl

theorem Coherent.materialize_toData_of_unknown (h : s.Coherent) (hmembers : ¬ s.MembersKnown) :
    ∃ id item, s.UnknownMember id item ∧
      s.toData.materialize = .error (.invalidData (.unknownMember id item)) := by
  have hgrammar : Grammar.ofData s.toData.grammar = .ok s.grammar := h.grammar.ofData_toData
  have hunknown : ∃ key entry, s.structures.get? key = some entry ∧
      entry.body.unknown? s.grammar ≠ none := by
    by_contra hnone
    push Not at hnone
    exact hmembers fun id entry set hentry hset =>
      Body.unknown?_eq_none_iff.mp (hnone id entry hentry) set hset
  obtain ⟨key, entry, item, hentry, hitem, hbag⟩ :=
    h.structures.ofData_toData_of_unknown hunknown
  obtain ⟨set, hset, hmem⟩ := Body.exists_of_unknown?_eq_some hitem
  refine ⟨entry.id, item, ⟨key, entry, set, hentry, rfl, hset, hmem⟩, ?_⟩
  have hstructures : Bag.ofData s.grammar s.toData.structures
      = .error (.invalidData (.unknownMember entry.id item)) := hbag
  simp only [SnapshotData.materialize, hgrammar, hstructures, bind, Except.bind]

/-- Data only knows what is proposed. -/
theorem toData_committed (s : Snapshot) : s.committed.toData = s.toData := by
  rw [toData, toData, committed, Bag.toData_committed]

/-- Archiving makes the proposals true in any case. -/
theorem archive_committed (s : Snapshot) : s.committed.archive = s.archive := by
  rw [archive, archive, apply_finalize, apply_finalize, committed, Bag.settled_committed]
  match Grammar.finalize.apply s.grammar with
  | (.ok _, g) => rfl
  | (.error e, g) => rfl

/-- **The data of a snapshot leads back to it**, its sets committed, exactly if its symbol sets
mention symbols only. -/
theorem Attained.record_round_trip (h : s.Attained) :
    (s.MembersKnown → s.toData.materialize = .ok s.committed ∧
      s.committed.toData = s.toData ∧ s.committed.archive = s.archive) ∧
    (¬ s.MembersKnown → ∃ id item, s.UnknownMember id item ∧
      s.toData.materialize = .error (.invalidData (.unknownMember id item))) :=
  ⟨fun hmembers => ⟨h.coherent.materialize_toData hmembers, s.toData_committed,
    s.archive_committed⟩, h.coherent.materialize_toData_of_unknown⟩

/-! ### Whether data can be materialized -/

/-- What is known of the members can be read off the data. -/
theorem membersKnown_toData : s.toData.MembersKnown ↔ s.MembersKnown := by
  have hget : ∀ id, s.toData.structures.get? id = (s.structures.get? id).map Structure.toData :=
    fun id => SortedMap.get?_mapValues _ _ _
  constructor
  · intro h id entry set hentry hset item hitem
    have hdata : s.toData.structures.get? id = some entry.toData := by rw [hget, hentry]; rfl
    have hbody : entry.toData.body = .symbolSet set.pending set.tag := by
      rw [Structure.toData, hset]
      rfl
    rw [Grammar.containsSymbol, Bool.or_eq_true]
    exact h id entry.toData set.pending set.tag hdata hbody item hitem
  · intro h id entry' members tag hdata hbody item hitem
    rw [hget] at hdata
    obtain ⟨entry, hentry, rfl⟩ := Option.map_eq_some_iff.mp hdata
    rw [Structure.toData] at hbody
    cases hset : entry.body with
    | symbolSet set =>
        rw [hset] at hbody
        obtain ⟨rfl, -⟩ := BodyData.symbolSet.inj hbody
        have hknown := h id entry set hentry hset item hitem
        rwa [Grammar.containsSymbol, Bool.or_eq_true] at hknown
    | table t => simp [hset, Body.toData] at hbody
    | symbolMapping mapping => simp [hset, Body.toData] at hbody
    | stack items => simp [hset, Body.toData] at hbody

theorem Coherent.materializes_iff (h : s.Coherent) :
    (∃ s', s.toData.materialize = .ok s') ↔ s.MembersKnown := by
  constructor
  · rintro ⟨s', hs'⟩
    by_contra hmembers
    obtain ⟨id, item, -, herror⟩ := h.materialize_toData_of_unknown hmembers
    rw [herror] at hs'
    cases hs'
  · exact fun hmembers => ⟨s.committed, h.materialize_toData hmembers⟩

/-- A member that is known when the proposals are made true was known before. -/
theorem membersKnown_of_settled
    (h : MembersKnown ⟨s.grammar.settled, s.structures.settled⟩) : s.MembersKnown := by
  intro id entry set hentry hset item hitem
  have hsettled : s.structures.settled.get? id = some entry.settled := by
    rw [Bag.settled, Bag.get?, SortedMap.get?_mapValues, show s.structures.entries.get? id = _ from
      hentry]
    rfl
  have hbody : entry.settled.body = .symbolSet set.settled := by
    rw [Structure.settled, hset]
    rfl
  refine (h id entry.settled set.settled hsettled hbody item hitem).imp_right fun hknown => ?_
  have hold : ∀ e, s.grammar.settled.Has e → s.grammar.Has e := by
    intro e he
    obtain ⟨tag, htag, -⟩ := Grammar.has_settled.mp he
    exact ⟨tag, htag⟩
  exact Grammar.containsSymbol_iff.mpr
    ((Grammar.containsSymbol_iff.mp hknown).imp (hold (.nonterminal item)) (hold (.terminal item)))

/-- The archive is the data of a snapshot in which no member is known that was not known before. -/
theorem Coherent.exists_of_archive (h : s.Coherent) {data : SnapshotData}
    (harchive : s.archive = .ok data) :
    ∃ s' : Snapshot, s'.Coherent ∧ data = s'.toData ∧ (s'.MembersKnown → s.MembersKnown) := by
  obtain ⟨hcheck, rfl⟩ := archive_eq_ok.mp harchive
  refine ⟨_, ⟨?_, h.structures.settled⟩, rfl, membersKnown_of_settled⟩
  exact (Grammar.intact_of_finalize h.grammar.named (Grammar.finalize_of_check hcheck)).2.sound

/-- An operation that finalizes nothing always leads on. -/
theorem Operation.keeps_attained {op : Operation} (hop : ¬ op.Finalizes) :
    Edit.Keeps Attained op.edit :=
  fun _ h => h.edit op fun hc => absurd hc hop

/-- `S -> a` with a set of symbols. -/
def sampleStart : Snapshot where
  grammar := ⟨.ofList [("S", .none)], .ofList [("a", .none)],
    .ofList [("S", .ofList [(⟨["a"]⟩, .none)])], "S"⟩
  structures := .put .empty "set" ⟨"set", "S/0", .none, 1, .symbolSet (.ofList ["a"] .none)⟩

/-- The set and a table with one cell are to hold more than they do. -/
def sampleOperations : List Operation :=
  [.structures (.editContent .symbolSet (by decide) "set" fun set => (SymbolSet.add set "S").2),
    .structures (.openContent .table "table" "T"),
    .structures (.editTable "table" (.addRow "S" "S")),
    .structures (.editTable "table" (.addColumn "a" "a")),
    .structures (.editTable "table" (.editCell "S" "a" fun cell => (cell.add "S -> a").2)),
    .grammar (.removeRule ⟨"S", ⟨["a"]⟩⟩)]

def sample : Snapshot := Edit.performAll Operation.edit sampleOperations sampleStart

/-- The same with something in the set that is no symbol. -/
def sampleStray : Snapshot :=
  Edit.performAll Operation.edit
    [.structures (.editContent .symbolSet (by decide) "set" fun set => (SymbolSet.add set "b").2)]
    sample

theorem attained_sample : sample.Attained := by
  refine Edit.Keeps.performAll (fun op hop => Operation.keeps_attained ?_)
    (.materialize (show sampleStart.toData.materialize = .ok sampleStart by decide))
  rintro hfinalizes
  simp [sampleOperations] at hop
  rcases hop with rfl | rfl | rfl | rfl | rfl | rfl <;> simp [Operation.Finalizes] at hfinalizes

theorem attained_sampleStray : sampleStray.Attained := by
  refine Edit.Keeps.performAll (fun op hop => Operation.keeps_attained ?_) attained_sample
  obtain rfl := List.mem_singleton.mp hop
  exact id

theorem Attained.record_round_trip_sample :
    (sample.toData.materialize = .ok sample.committed ∧ sample.committed ≠ sample) ∧
      ∃ id item, sampleStray.toData.materialize
        = .error (.invalidData (.unknownMember id item)) := by
  obtain ⟨hmaterialize, -⟩ := (Attained.record_round_trip attained_sample).1 (by decide)
  obtain ⟨id, item, -, herror⟩ := (Attained.record_round_trip attained_sampleStray).2 (by decide)
  exact ⟨⟨hmaterialize, by decide⟩, id, item, herror⟩

end Snapshot

end Chronicle
