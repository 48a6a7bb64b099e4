import Chronicle.Proofs.Structure.Archive
import Chronicle.Snapshot
/-!
Bags with one symbol set in them.

A procedure that keeps one set beside its grammar works on bags of a simple kind: there is nothing
in them but a symbol set under a known id (`Bag.HoldsSet`).  Here is what the edits of a bag and of
a set do to the members of that one, and that archiving makes the proposed members the effective
ones.
-/

namespace Chronicle

/-- The members of a set of texts. -/
def SortedSet.members (s : SortedSet String) : Set String := {x | s.contains x = true}

theorem SortedSet.mem_members {s : SortedSet String} {x : String} :
    x ∈ s.members ↔ s.contains x = true := .rfl

theorem SortedSet.members_insert (s : SortedSet String) (x : String) :
    (s.insert x).members = Insert.insert x s.members := by
  ext y
  simp [mem_members, contains_insert]

theorem SortedSet.members_empty : SortedSet.empty.members = ∅ := by
  ext x
  simp [mem_members]

namespace Bag

variable {bag : Bag} {id item name : String} {known pending : Set String} {g : Grammar}

/-- The bag with one structure. -/
def single (id : String) (s : Structure) : Bag := .put .empty id s

theorem get?_single (id : String) (s : Structure) : (single id s).get? id = some s := by
  simp [single, put, Bag.get?, SortedMap.get?_insert]

theorem eq_of_get?_single {s s' : Structure} {id' : String}
    (h : (single id s).get? id' = some s') : s' = s := by
  rw [single, put, Bag.get?, SortedMap.get?_insert] at h
  split at h
  · exact (Option.some.inj h).symm
  · cases h

theorem put_single (id : String) (s s' : Structure) : (single id s).put id s' = single id s' := by
  rw [single, single, put, put, put, Bag.mk.injEq]
  refine SortedMap.ext_get? fun key => ?_
  simp only [SortedMap.get?_insert]
  split <;> rfl

theorem require_single (id : String) (s : Structure) : (single id s).require id = .ok s := by
  rw [require, get?_single]

/-- There is one structure, a symbol set, with these effective and these proposed members. -/
def HoldsSet (bag : Bag) (id : String) (known pending : Set String) : Prop :=
  ∃ s set, bag = single id s ∧ s.body = .symbolSet set ∧ set.effective.members = known ∧
    set.proposed.members = pending

namespace HoldsSet

/-- An edit of the structure that leaves its content alone. -/
theorem put {s : Structure} (h : bag.HoldsSet id known pending) (f : Structure → Structure)
    (hs : bag.get? id = some s) (hbody : (f s).body = s.body) :
    (bag.put id (f s)).HoldsSet id known pending := by
  obtain ⟨s', set, rfl, hset, hknown, hpending⟩ := h
  obtain rfl : s' = s := Option.some.inj ((get?_single id s').symm.trans hs)
  exact ⟨f s', set, put_single _ _ _, hbody.trans hset, hknown, hpending⟩

theorem exists_get? (h : bag.HoldsSet id known pending) : ∃ s, bag.get? id = some s := by
  obtain ⟨s, set, rfl, -⟩ := h
  exact ⟨s, get?_single id s⟩

/-- The content is the set. -/
theorem content_eq (h : bag.HoldsSet id known pending) :
    ∃ set : SymbolSet, bag.content .symbolSet id = .ok set ∧ set.effective.members = known := by
  obtain ⟨s, set, rfl, hset, hknown, -⟩ := h
  refine ⟨set, ?_, hknown⟩
  simp only [content, require_single, bind, Except.bind, Structure.contentOf, hset, Body.as?]

/-- The set is there, so opening it changes nothing. -/
theorem openContent_eq (h : bag.HoldsSet id known pending) (name : String) :
    ∃ set, (openContent .symbolSet id name).apply bag = (.ok set, bag) := by
  obtain ⟨s, set, rfl, hset, -⟩ := h
  refine ⟨set, ?_⟩
  rw [openContent, Edit.apply_atomic, get?_single]
  simp only [Structure.contentOf, hset, Body.as?, Except.map]

/-- A proposed member; the answer is whether it is not effective. -/
theorem add_eq (h : bag.HoldsSet id known pending) (item : String) :
    ∃ bag' fresh, (editContent .symbolSet id fun set => SymbolSet.add set item).apply bag
        = (.ok fresh, bag') ∧ (fresh = true ↔ item ∉ known) ∧
      bag'.HoldsSet id known (insert item pending) := by
  obtain ⟨s, set, rfl, hset, rfl, rfl⟩ := h
  refine ⟨single id { s with body := .symbolSet (SymbolSet.add set item).2 },
    (SymbolSet.add set item).1, ?_, ?_, _, _, rfl, rfl, rfl, SortedSet.members_insert _ _⟩
  · unfold editContent
    rw [Edit.apply_atomic]
    simp only [require_single, bind, Except.bind, pure, Except.pure, Structure.contentOf, hset,
      Body.as?, put_single]
    rfl
  · simp [SymbolSet.add, SymbolSet.contains, SortedSet.mem_members]

/-- A set that is not needed any more. -/
theorem remove_eq (h : bag.HoldsSet id known pending) :
    ∃ s, (remove id).apply bag = (.ok s, .empty) := by
  obtain ⟨s, set, rfl, -⟩ := h
  refine ⟨s, ?_⟩
  rw [remove, Edit.apply_atomic]
  simp only [require_single, bind, Except.bind, pure, Except.pure]
  congr 2
  refine SortedMap.ext_get? fun key => ?_
  rw [single, Bag.put, SortedMap.get?_erase, SortedMap.get?_insert]
  split <;> rfl

/-- Archiving makes the proposed members the effective ones. -/
theorem settled (h : bag.HoldsSet id known pending) : bag.settled.HoldsSet id pending pending := by
  obtain ⟨s, set, rfl, hset, rfl, rfl⟩ := h
  refine ⟨s.settled, set.settled, rfl, ?_, rfl, rfl⟩
  rw [Structure.settled, hset, Body.settled]

/-- The set comes back from its archived data if its members are symbols. -/
theorem ofData_toData (h : bag.HoldsSet id pending pending)
    (hmembers : ∀ item ∈ pending, g.containsSymbol item = true) :
    ∃ bag', Bag.ofData g bag.toData = .ok bag' ∧ bag'.HoldsSet id pending pending := by
  obtain ⟨s, set, rfl, hset, -, rfl⟩ := h
  refine ⟨(single id s).committed, Full.ofData_toData ?_ fun id' s' hs' => ?_,
    s.committed, set.committed, rfl, ?_, rfl, rfl⟩
  · intro id' s' hs' t ht
    rw [eq_of_get?_single hs', hset] at ht
    cases ht
  · rw [eq_of_get?_single hs', Body.unknown?_eq_none_iff]
    intro set' hset' item hitem
    obtain rfl := Body.symbolSet.inj (hset.symm.trans hset')
    exact .inr (hmembers item (SortedSet.contains_iff.mpr hitem))
  · rw [Structure.committed, hset, Body.committed]

end HoldsSet

/-- A set that is opened in an empty bag is empty. -/
theorem openContent_eq (id name : String) :
    ∃ content bag, (openContent .symbolSet id name).apply .empty = (.ok content, bag) ∧
      bag.HoldsSet id ∅ ∅ :=
  ⟨_, single id (.create .symbolSet id name), rfl, _, SymbolSet.empty, rfl, rfl,
    SortedSet.members_empty, SortedSet.members_empty⟩

end Bag

end Chronicle
