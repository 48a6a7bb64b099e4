import Chronicle.Proofs.Reduction.Edits
import Chronicle.Proofs.Settling
import Chronicle.Proofs.Timeline.LabelText
/-!
The names of the sets, and what the records of the rounds show.

Beside its members, a set has a name that counts the rounds.  The name does not matter for what the
rounds do, so it is followed by itself here: the edits of a round leave it alone
(`Snapshot.Calls`), but for the one that counts the round (`countRound_calls`), and it goes with the
set from one step to the next (`Calls.renewed`).

`SnapshotData.Shows` is what can be read off the record of a round: the grammar, and the set with
its name and its members.
-/

namespace Chronicle

namespace Edit

/-- A loop. -/
theorem Keeps.forM {σ ι : Type} {inv : σ → Prop} {f : ι → Edit σ Unit} (l : List ι)
    (h : ∀ i ∈ l, Keeps inv (f i)) : Keeps inv (l.forM f) := by
  induction l with
  | nil => exact .pure ()
  | cons i l ih =>
      exact .bind (h i List.mem_cons_self) fun _ => ih fun j hj => h j (List.mem_cons_of_mem _ hj)

theorem Keeps.filterM {σ ι : Type} {inv : σ → Prop} {f : ι → Edit σ Bool} (l : List ι)
    (h : ∀ i, Keeps inv (f i)) : Keeps inv (l.filterM f) := by
  have hloop : ∀ acc : List ι, Keeps inv (l.filterAuxM f acc) := by
    induction l with
    | nil => exact fun acc => .pure acc
    | cons i l ih => exact fun acc => .bind (h i) fun _ => ih _
  exact .bind (hloop []) fun _ => .pure _

end Edit

namespace Bag

variable {bag : Bag} {id : String}

/-- The name of a structure. -/
def name? (bag : Bag) (id : String) : Option String := (bag.get? id).map (·.name)

theorem name?_put (bag : Bag) (id : String) (s : Structure) (id' : String) :
    (bag.put id s).name? id' = if id' = id then some s.name else bag.name? id' := by
  rw [name?, put, get?, SortedMap.get?_insert]
  split <;> rfl

/-- An edit of a structure that leaves its name alone. -/
theorem name?_put_of_name_eq {s s' : Structure} (hs : bag.get? id = some s)
    (hname : s'.name = s.name) (id' : String) : (bag.put id s').name? id' = bag.name? id' := by
  rw [name?_put]
  split
  · next heq => rw [heq, name?, hs, hname, Option.map_some]
  · rfl

theorem name?_settled (bag : Bag) (id : String) : bag.settled.name? id = bag.name? id := by
  rw [name?, name?, settled, get?, SortedMap.get?_mapValues, Option.map_map]
  rfl

theorem name?_committed (bag : Bag) (id : String) : bag.committed.name? id = bag.name? id := by
  rw [name?, name?, committed, get?, SortedMap.get?_mapValues, Option.map_map]
  rfl

theorem HoldsSet.full {known pending : Set String} (h : bag.HoldsSet id known pending) :
    bag.Full := by
  obtain ⟨s, set, rfl, hset, -⟩ := h
  intro id' s' hs' t ht
  rw [eq_of_get?_single hs', hset] at ht
  cases ht

end Bag

/-- The grammar of the record has this outline, and the structure is a set with this name and these
members. -/
def SnapshotData.Shows (data : SnapshotData) (o : Outline) (id name : String)
    (members : Set String) : Prop :=
  (∃ g, Grammar.ofData data.grammar = .ok g ∧ g.outline = o) ∧
    ∃ entry items tag, data.structures.get? id = some entry ∧ entry.name = name ∧
      entry.body = .symbolSet items tag ∧ ∀ x, x ∈ items ↔ x ∈ members

namespace Snapshot

variable {s next : Snapshot} {o : Outline} {doomed : Set GrammarEntry} {id name : String}
  {known pending : Set String} {data : SnapshotData} {α : Type}

/-- The grammar is sound, and the bag is as said. -/
structure SoundWith (bag : Bag → Prop) (s : Snapshot) : Prop where
  sound : s.grammar.Sound
  structures : bag s.structures

/-- The grammar is sound, and the structure has this name. -/
abbrev Calls (id name : String) : Snapshot → Prop := SoundWith (·.name? id = some name)

theorem keeps_editGrammar {bag : Bag → Prop} {e : Edit Grammar α}
    (h : Edit.Keeps Grammar.Sound e) : Edit.Keeps (SoundWith bag) (editGrammar e) := by
  intro s hs
  rw [editGrammar, Edit.apply_on]
  exact ⟨h _ hs.sound, hs.structures⟩

/-- What a step records, if a set with a name is there. -/
theorem Amid.shows (h : s.Amid o doomed (·.HoldsSet id known pending)) (hcalls : s.Calls id name) :
    s.toData.Shows o id name pending := by
  obtain ⟨entry, set, hbag, hset, -, hpending⟩ := h.structures
  have hget : s.structures.get? id = some entry := hbag ▸ Bag.get?_single id entry
  have hname : entry.name = name := by simpa [Bag.name?, hget] using hcalls.structures
  have hentry : s.toData.structures.get? id = some entry.toData := by
    show (s.structures.entries.mapValues _).get? id = _
    rw [SortedMap.get?_mapValues, show s.structures.entries.get? id = _ from hget]
    rfl
  refine ⟨⟨s.grammar, hcalls.sound.ofData_toData, h.outline_eq⟩, entry.toData, set.pending, set.tag,
    hentry, hname, by rw [Structure.toData, hset]; rfl, fun x => ?_⟩
  rw [← hpending, SortedSet.mem_members, SortedSet.contains_iff]
  rfl

/-- A set keeps its name when the step is archived and the next one begins. -/
theorem Calls.renewed (h : s.Calls id name) (hfull : s.structures.Full)
    (harchive : s.archive = .ok data) (hmaterialize : data.materialize = .ok next) :
    next.Calls id name := by
  refine ⟨(coherent_of_materialize hmaterialize).grammar, ?_⟩
  rw [eq_committed_of_materialize hfull harchive hmaterialize, committed, Bag.name?_committed,
    Bag.name?_settled, h.structures]

end Snapshot

namespace Reduction

open Snapshot

variable {id name : String}

/-! ### The names of the rounds -/

/-- The name of a set after so many rounds, counted in a machine word of 32 bits. -/
def roundName (letter : String) (rounds : Nat) : String :=
  letter ++ "/" ++ toString (rounds % (maxRound + 1))

theorem nextRoundName_roundName (letter : String) (rounds : Nat) :
    nextRoundName letter (roundName letter rounds) = roundName letter (rounds + 1) := by
  have hread := Text.parseDecimal?_toString
    (Nat.le_of_lt_succ (Nat.mod_lt rounds maxRound.succ_pos))
  have htext : (roundName letter rounds).toList
      = (letter ++ "/").toList ++ (toString (rounds % (maxRound + 1))).toList :=
    String.toList_append
  have hlead : (letter ++ "/").toList.isPrefixOf (roundName letter rounds).toList = true :=
    htext ▸ List.isPrefixOf_iff_prefix.mpr (List.prefix_append _ _)
  have hrest : String.ofList ((roundName letter rounds).toList.drop (letter ++ "/").toList.length)
      = toString (rounds % (maxRound + 1)) := by
    rw [htext, List.drop_left, String.ofList_toList]
  unfold nextRoundName
  simp only [hlead, if_true, hrest, hread, Option.getD_some, Nat.mod_add_mod]
  rfl

/-! ### What the edits do to the name -/

theorem keeps_markSymbols {bag : Bag → Prop} (names : List String) (tag : Tag) :
    Edit.Keeps (SoundWith bag) (markSymbols names tag) :=
  keeps_editGrammar (.forM names fun symbol _ =>
    Grammar.stable_sound.keeps (.markSymbol symbol tag) (by simp))

theorem keeps_markRule {bag : Bag → Prop} (key : RuleKey) (tag : Tag) :
    Edit.Keeps (SoundWith bag) (Snapshot.editGrammar (Grammar.markRule key tag)) :=
  keeps_editGrammar ((Grammar.stable_sound.withstands fun _ => True).keeps_markRule key trivial)

theorem keeps_addMember (id' item : String) :
    Edit.Keeps (Calls id name) (addMember id' item) := by
  intro s hs
  refine ⟨hs.sound, ?_⟩
  have hkept : Edit.Keeps (fun bag : Bag => bag.name? id = some name)
      (Bag.editContent .symbolSet id' fun set => SymbolSet.add set item) := by
    refine .atomic fun bag fresh next hname heq => ?_
    obtain ⟨entry, hentry, heq⟩ := exists_of_bind_eq_ok heq
    obtain ⟨content, -, heq⟩ := exists_of_bind_eq_ok heq
    obtain ⟨-, rfl⟩ := Prod.mk.inj (Except.ok.inj heq)
    refine (Bag.name?_put_of_name_eq (Bag.require_eq_ok hentry) ?_ id).trans hname
    rfl
  exact hkept _ hs.structures

theorem keeps_effectiveMembers (id' : String) :
    Edit.Keeps (Calls id name) (effectiveMembers id') :=
  .get fun _ => .bind (.ofExcept _) fun _ => .pure _

/-- What a round proposes leaves the name alone. -/
theorem keeps_proposeRound (id' : String) (candidates : List String) :
    Edit.Keeps (Calls id name) (do
      let grown ← proposeMembers id' candidates
      markSymbols grown .attentionWillTransfer
      return !grown.isEmpty) :=
  .bind (.filterM candidates (keeps_addMember id')) fun grown =>
    .bind (keeps_markSymbols grown _) fun _ => .pure _

/-- The name counts the round. -/
theorem countRound_calls (letter : String) :
    Edit.Leads (Calls id name) (countRound id letter)
      (fun _ => Calls id (nextRoundName letter name)) fun _ => True := by
  intro s hs
  obtain ⟨entry, hentry, rfl⟩ := Option.map_eq_some_iff.mp hs.structures
  have hcount : (countRound id letter).apply s = (.ok (), ⟨s.grammar,
      s.structures.put id ({ entry with name := nextRoundName letter entry.name })⟩) := by
    rw [countRound, Snapshot.editStructures, Edit.apply_on, Edit.apply_atomic]
    simp only [Bag.require, hentry, bind, Except.bind, pure, Except.pure]
  rw [hcount]
  refine ⟨hs.sound, ?_⟩
  rw [Bag.name?_put, if_pos rfl]

theorem extendGenerating_calls :
    Edit.Leads (Calls generatingId name) extendGenerating
      (fun _ => Calls generatingId (nextRoundName "S" name)) fun _ => True := by
  unfold extendGenerating
  refine .bind _ (countRound_calls "S") fun _ => Edit.Keeps.leads ?_ fun _ _ => trivial
  exact .bind (keeps_effectiveMembers generatingId) fun known => .get fun s =>
    keeps_proposeRound generatingId _

theorem extendReachable_calls :
    Edit.Leads (Calls reachableId name) extendReachable
      (fun _ => Calls reachableId (nextRoundName "H" name)) fun _ => True := by
  unfold extendReachable
  refine .bind _ (countRound_calls "H") fun _ => Edit.Keeps.leads ?_ fun _ _ => trivial
  exact .bind (keeps_effectiveMembers reachableId) fun known => .get fun s =>
    keeps_proposeRound reachableId _

/-- The grammar is sound, and there are no structures. -/
abbrev Bare : Snapshot → Prop := SoundWith (· = .empty)

/-- A set that is opened has the name that it is opened with. -/
theorem openSet_calls (id name : String) :
    Edit.Leads Bare (Snapshot.editStructures (Bag.openContent .symbolSet id name))
      (fun _ => Calls id name) fun _ => True := by
  intro s hs
  obtain ⟨hsound, hempty⟩ := hs
  rw [Snapshot.editStructures, Edit.apply_on, hempty]
  refine ⟨hsound, ?_⟩
  show (Bag.put .empty id (.create .symbolSet id name)).name? id = some name
  rw [Bag.name?_put, if_pos rfl]
  rfl

theorem openGenerating_calls :
    Edit.Leads Bare openGenerating (fun _ => Calls generatingId "S/0") fun _ => True := by
  unfold openGenerating
  refine .get fun s hs => .bind (fun _ => Bare) (((keeps_markSymbols _ _).leads fun _ _ =>
    trivial).mono (fun _ h => h ▸ hs) fun _ _ h => h) fun _ =>
    .bind _ (openSet_calls generatingId "S/0") fun _ => Edit.Keeps.leads ?_ fun _ _ => trivial
  exact .forM _ fun key _ => .bind (keeps_addMember _ _) fun _ =>
    .bind (keeps_markRule key _) fun _ => keeps_markSymbols _ _

theorem openReachable_calls :
    Edit.Leads Bare openReachable (fun _ => Calls reachableId "H/0") fun _ => True := by
  unfold openReachable
  refine .get fun s hs => .bind _ ((openSet_calls reachableId "H/0").mono (fun _ h => h ▸ hs)
    fun _ _ h => h) fun _ => Edit.Keeps.leads ?_ fun _ _ => trivial
  exact .bind (keeps_addMember _ _) fun _ => keeps_markSymbols _ _

end Reduction

end Chronicle
