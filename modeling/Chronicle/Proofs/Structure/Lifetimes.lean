import Chronicle.Proofs.Structure.Archive
import Mathlib.Data.List.Induction
/-!
What becomes of the entries of a bag.

Whatever is done to a bag, under each id one of four things happens: there was no entry and there is
none, the entry goes on under its id and with its kind, an entry is created, or the entry is taken
out (`Bag.Turns`).  Only a call that fetches or creates an entry brings one in, and only a removal
takes one out, so the kind of an entry is told by the call that created it.  The list of the entries
is sorted by priority only; that those of one priority come in the order of their ids is due to the
order in which the map holds them and to the sort, which keeps it.
-/

namespace Chronicle

/-! ### Stable sorting -/

/-- What a sort puts one after the other without need was in this order before. -/
theorem pairwise_mergeSort_of_pairwise {α : Type} {le : α → α → Bool} {r : α → α → Prop}
    {l : List α} (htrans : ∀ a b c, le a b = true → le b c = true → le a c = true)
    (htotal : ∀ a b, (le a b || le b a) = true) (h : l.Pairwise r) :
    (l.mergeSort le).Pairwise fun a b => le a b = true ∧ (le b a = true → r a b) := by
  induction l with
  | nil => simp
  | cons a l ih =>
      obtain ⟨ha, hl⟩ := List.pairwise_cons.mp h
      -- The first of the list goes behind exactly those that are strictly below it.
      obtain ⟨front, back, hsort, hrest, hfront⟩ := List.mergeSort_cons htrans htotal a l
      have hsorted := List.pairwise_mergeSort htrans htotal (a :: l)
      rw [hsort, List.pairwise_append, List.pairwise_cons] at hsorted
      have hpairs := ih hl
      rw [hrest, List.pairwise_append] at hpairs
      have hback : ∀ b ∈ back, r a b := by
        intro b hb
        have hmem : b ∈ l.mergeSort le := hrest ▸ List.mem_append_right front hb
        exact ha b (List.mem_mergeSort.mp hmem)
      rw [hsort, List.pairwise_append, List.pairwise_cons]
      refine ⟨hpairs.1, ⟨fun b hb => ⟨hsorted.2.1.1 b hb, fun _ => hback b hb⟩, hpairs.2.1⟩,
        fun b hb c hc => ?_⟩
      rcases List.mem_cons.mp hc with rfl | hc
      · refine ⟨hsorted.2.2 b hb c List.mem_cons_self, fun hle => ?_⟩
        have hnot := hfront b hb
        simp [hle] at hnot
      · exact hpairs.2.2 b hb c hc

/-! ### One entry -/

namespace Structure

variable {s s' : Structure} {g : Grammar}

/-- The order in which entries are listed. -/
def Before (a b : Structure) : Prop :=
  a.priority < b.priority ∨ a.priority = b.priority ∧ a.id < b.id

theorem Before.irrefl (s : Structure) : ¬s.Before s := by
  intro h
  rcases h with hlt | ⟨-, hlt⟩
  · exact Int32.lt_irrefl hlt
  · exact String.lt_irrefl s.id hlt

/-- What is read again of an archived entry; the entry itself if it cannot be read. -/
def reloaded (s : Structure) (g : Grammar) : Structure :=
  match ofData g s.toData with
  | .ok s' => s'
  | .error _ => s

/-- The entry at a later time. -/
structure Continues (s s' : Structure) : Prop where
  id : s'.id = s.id
  kind : s'.kind = s.kind

namespace Continues

theorem refl (s : Structure) : s.Continues s := ⟨rfl, rfl⟩

theorem settled (s : Structure) : s.Continues s.settled := by
  refine ⟨rfl, ?_⟩
  show s.body.settled.kind = s.body.kind
  cases s.body <;> rfl

/-- What is read again is of the kind that was archived. -/
theorem ofData (h : Structure.ofData g s.toData = .ok s') : s.Continues s' := by
  obtain ⟨body, hbody, heq⟩ := exists_of_bind_eq_ok h
  obtain rfl := Except.ok.inj heq
  refine ⟨rfl, ?_⟩
  show body.kind = s.body.kind
  change Body.ofData g s.id s.body.toData = .ok body at hbody
  cases hkind : s.body with
  | symbolSet set =>
      rw [hkind, Body.toData, Body.ofData] at hbody
      split at hbody
      · cases hbody
      · obtain rfl := Except.ok.inj hbody
        rfl
  | table t =>
      rw [hkind] at hbody
      obtain rfl := Except.ok.inj hbody
      rfl
  | symbolMapping mapping =>
      rw [hkind] at hbody
      obtain rfl := Except.ok.inj hbody
      rfl
  | stack stack =>
      rw [hkind] at hbody
      obtain rfl := Except.ok.inj hbody
      rfl

theorem reloaded (s : Structure) (g : Grammar) : s.Continues (s.reloaded g) := by
  unfold Structure.reloaded
  split
  · next s' hread => exact .ofData hread
  · exact .refl s

end Continues

/-- The content that an entry has. -/
theorem exists_content (s : Structure) : ∃ content, s.body = .of s.kind content := by
  obtain ⟨content, hcontent⟩ := Option.ne_none_iff_exists'.mp
    (mt Body.as?_eq_none_iff.mp (not_not.mpr (rfl : s.body.kind = s.kind)))
  exact ⟨content, Body.eq_of_as?_eq_some hcontent⟩

theorem contentOf_of_body {kind : StructureKind} {content : kind.Content}
    (h : s.body = .of kind content) (id : String) : s.contentOf kind id = .ok content := by
  rw [contentOf, h, Body.as?_of]

theorem contentOf_of_kind_ne {kind : StructureKind} (h : kind ≠ s.kind) (id : String) :
    s.contentOf kind id = .error (.structureKind id kind s.kind) := by
  rw [contentOf, Body.as?_eq_none_iff.mpr h.symm]

end Structure

namespace Bag

variable {bag bag' : Bag} {id : String} {s : Structure} {kind : StructureKind} {α : Type}

/-! ### Calls -/

theorem get?_put (bag : Bag) (id : String) (s : Structure) (id' : String) :
    (bag.put id s).get? id' = if id' = id then some s else bag.get? id' :=
  SortedMap.get?_insert _ _ _ _

theorem require_of_get? (h : bag.get? id = some s) : bag.require id = .ok s := by
  rw [require, h]

theorem require_of_absent (h : bag.get? id = none) :
    bag.require id = .error (.unknownStructure id) := by
  rw [require, h]

/-- Fetching from an entry of the kind that is asked for. -/
theorem apply_openContent_of_body {content : kind.Content} (h : bag.get? id = some s)
    (hbody : s.body = .of kind content) (name : String) :
    (openContent kind id name).apply bag = (.ok content, bag) := by
  rw [openContent, Edit.apply_atomic, h]
  simp only [Structure.contentOf_of_body hbody]
  rfl

theorem apply_openContent_of_kind_ne (h : bag.get? id = some s) (hkind : kind ≠ s.kind)
    (name : String) :
    (openContent kind id name).apply bag = (.error (.structureKind id kind s.kind), bag) := by
  rw [openContent, Edit.apply_atomic, h]
  simp only [Structure.contentOf_of_kind_ne hkind]
  rfl

/-- Where there is no entry, one is created. -/
theorem apply_openContent_of_absent (h : bag.get? id = none) (kind : StructureKind)
    (name : String) : (openContent kind id name).apply bag
      = (.ok kind.emptyContent, bag.put id (.create kind id name)) := by
  rw [openContent, Edit.apply_atomic, h]

theorem apply_editContent_of_body {content : kind.Content} (h : bag.get? id = some s)
    (hbody : s.body = .of kind content) (f : kind.Content → α × kind.Content) :
    (editContent kind id f).apply bag
      = (.ok (f content).1, bag.put id { s with body := .of kind (f content).2 }) := by
  rw [editContent, Edit.apply_atomic, require_of_get? h]
  simp only [bind, Except.bind, Structure.contentOf_of_body hbody]
  rfl

theorem apply_remove (h : bag.get? id = some s) :
    (remove id).apply bag = (.ok s, ⟨bag.entries.erase id⟩) := by
  rw [remove, Edit.apply_atomic, require_of_get? h]
  rfl

theorem apply_remove_of_absent (h : bag.get? id = none) :
    (remove id).apply bag = (.error (.unknownStructure id), bag) := by
  rw [remove, Edit.apply_atomic, require_of_absent h]
  rfl

/-- The content under an id can neither be read nor be edited, and the error is always this one. -/
def Refuses (bag : Bag) (kind : StructureKind) (id : String) (err : EngineError) : Prop :=
  bag.content kind id = .error err ∧
    ∀ (α : Type) (f : kind.Content → α × kind.Content),
      (editContent kind id f).apply bag = (.error err, bag)

theorem refuses_of_kind_ne (h : bag.get? id = some s) (hkind : kind ≠ s.kind) :
    bag.Refuses kind id (.structureKind id kind s.kind) := by
  have hcontent := Structure.contentOf_of_kind_ne hkind id
  constructor
  · rw [content, require_of_get? h]
    exact hcontent
  · intro α f
    rw [editContent, Edit.apply_atomic, require_of_get? h]
    simp only [bind, Except.bind, hcontent]

theorem refuses_of_absent (h : bag.get? id = none) (kind : StructureKind) :
    bag.Refuses kind id (.unknownStructure id) := by
  constructor
  · rw [content, require_of_absent h]
    rfl
  · intro α f
    rw [editContent, Edit.apply_atomic, require_of_absent h]
    rfl

/-! ### The bag at a later time -/

/-- No entry came in and none was taken out. -/
def Continues (bag bag' : Bag) : Prop :=
  ∀ id, Option.Rel Structure.Continues (bag.get? id) (bag'.get? id)

namespace Continues

theorem refl (bag : Bag) : bag.Continues bag := by
  intro id
  cases bag.get? id with
  | none => exact .none
  | some s => exact .some (.refl s)

theorem put {s' : Structure} (h : bag.get? id = some s) (hs : s.Continues s') :
    bag.Continues (bag.put id s') := by
  intro id'
  rw [get?_put]
  split
  · next heq =>
      rw [heq, h]
      exact .some hs
  · exact refl bag id'

theorem editEntry (id : String) (f : Structure → α × Structure)
    (hf : ∀ s : Structure, s.Continues (f s).2) : bag.Continues (bag.editEntry id f).2 := by
  unfold Bag.editEntry
  split
  · next s hs => exact put hs (hf s)
  · exact refl bag

/-- Content of the kind of an entry is what it gets. -/
theorem editContent (kind : StructureKind) (id : String) (f : kind.Content → α × kind.Content) :
    bag.Continues ((Bag.editContent kind id f).apply bag).2 := by
  cases hs : bag.get? id with
  | none =>
      rw [(refuses_of_absent hs kind).2 α f]
      exact refl bag
  | some s =>
      by_cases hkind : kind = s.kind
      · subst hkind
        obtain ⟨content, hbody⟩ := s.exists_content
        rw [apply_editContent_of_body hs hbody]
        exact put hs ⟨rfl, Body.kind_of s.kind _⟩
      · rw [(refuses_of_kind_ne hs hkind).2 α f]
        exact refl bag

theorem mapValues (bag : Bag) {f : Structure → Structure}
    (hf : ∀ s : Structure, s.Continues (f s)) :
    bag.Continues ⟨bag.entries.mapValues fun _ => f⟩ := by
  intro id
  rw [get?, get?, SortedMap.get?_mapValues]
  cases bag.entries.get? id with
  | none => exact .none
  | some s => exact .some (hf s)

/-- Reading an archived bag again. -/
theorem ofData {g : Grammar} (h : Bag.ofData g bag.toData = .ok bag') : bag.Continues bag' := by
  have hread : ∀ id s, bag.entries.get? id = some s →
      Structure.ofData g s.toData = .ok (s.reloaded g) := by
    intro id s hs
    cases hres : Structure.ofData g s.toData with
    | ok s' => rw [Structure.reloaded, hres]
    | error e =>
        obtain ⟨_, _, e', _, hfold⟩ := foldlM_readEntry_eq_error
          (fun s => Structure.ofData g s.toData) bag.entries.toList .empty
          ⟨(id, s), SortedMap.get?_eq_some_iff.mp hs, e, hres⟩
        rw [ofData_toData_eq, hfold] at h
        cases h
  rw [ofData_toData_eq, foldlM_readEntry_eq_ok bag.entries hread] at h
  obtain rfl := Except.ok.inj h
  exact mapValues bag fun s => .reloaded s g

end Continues

/-! ### Whatever is done to a bag -/

/-- What happens to a bag: an operation, any change of the content of an entry, or that the bag is
archived and read again next to some grammar. -/
inductive Action
  | operation (op : Operation)
  | editContent (kind : StructureKind) (id : String) (f : kind.Content → kind.Content)
  | reload (g : Grammar)

/-- The edit that an action is; a bag that cannot be read again stays as it is. -/
def Action.edit : Action → Edit Bag Unit
  | operation op => op.edit
  | editContent kind id f => Bag.editContent kind id fun content => ((), f content)
  | reload g => .atomic fun bag => (ofData g bag.toData).map ((), ·)

/-- What an action can do to what is stored under an id. -/
inductive Turns (act : Action) (id : String) : Option Structure → Option Structure → Prop
  | absent (h : ∀ kind name, act ≠ .operation (.openContent kind id name)) : Turns act id none none
  | continues {s s' : Structure} (h : act ≠ .operation (.remove id)) (hs : s.Continues s') :
      Turns act id (some s) (some s')
  | created {kind : StructureKind} {name : String}
      (h : act = .operation (.openContent kind id name)) :
      Turns act id none (some (.create kind id name))
  | removed {s : Structure} (h : act = .operation (.remove id)) : Turns act id (some s) none

/-- An action that neither creates an entry under the id nor removes it. -/
theorem Turns.of_continues {act : Action}
    (hopen : ∀ kind name, act ≠ .operation (.openContent kind id name))
    (hremove : act ≠ .operation (.remove id)) (h : bag.Continues bag') :
    Turns act id (bag.get? id) (bag'.get? id) := by
  have hrel := h id
  generalize bag.get? id = before at hrel ⊢
  generalize bag'.get? id = behind at hrel ⊢
  cases hrel with
  | none => exact .absent hopen
  | some hs => exact .continues hremove hs

theorem turns_openContent (bag : Bag) (kind : StructureKind) (id' name id : String) :
    Turns (.operation (.openContent kind id' name)) id (bag.get? id)
      (((Operation.openContent kind id' name).edit.apply bag).2.get? id) := by
  rw [Operation.edit, Edit.apply_discard]
  cases hs : bag.get? id' with
  | none =>
      rw [apply_openContent_of_absent hs, get?_put]
      split
      · next heq =>
          subst heq
          rw [hs]
          exact .created rfl
      · next hne =>
          refine .of_continues (fun kind' name' heq => ?_) (by simp) (.refl bag)
          exact hne (Operation.openContent.inj (Action.operation.inj heq)).2.1.symm
  | some s =>
      have hsame : ((openContent kind id' name).apply bag).2 = bag := by
        by_cases hkind : kind = s.kind
        · subst hkind
          obtain ⟨content, hbody⟩ := s.exists_content
          rw [apply_openContent_of_body hs hbody]
        · rw [apply_openContent_of_kind_ne hs hkind]
      rw [hsame]
      cases hs' : bag.get? id with
      | some s' => exact .continues (by simp) (.refl s')
      | none =>
          refine .absent fun kind' name' heq => ?_
          obtain ⟨-, rfl, -⟩ := Operation.openContent.inj (Action.operation.inj heq)
          rw [hs'] at hs
          cases hs

theorem turns_remove (bag : Bag) (id' id : String) :
    Turns (.operation (.remove id')) id (bag.get? id)
      (((Operation.remove id').edit.apply bag).2.get? id) := by
  rw [Operation.edit, Edit.apply_discard]
  by_cases hid : id = id'
  · subst hid
    cases hs : bag.get? id with
    | some s =>
        rw [apply_remove hs, get?, SortedMap.get?_erase, if_pos rfl]
        exact .removed rfl
    | none =>
        rw [apply_remove_of_absent hs, hs]
        exact .absent (by simp)
  · have hsame : ((remove id').apply bag).2.get? id = bag.get? id := by
      cases hs : bag.get? id' with
      | none => rw [apply_remove_of_absent hs]
      | some s =>
          rw [apply_remove hs, get?, SortedMap.get?_erase, if_neg hid]
          rfl
    rw [hsame]
    refine .of_continues (by simp) (fun heq => ?_) (.refl bag)
    exact hid (Operation.remove.inj (Action.operation.inj heq)).symm

/-- Only an operation that creates or removes can bring an entry in or take one out. -/
theorem Operation.continues (op : Operation)
    (hopen : ∀ kind id name, op ≠ .openContent kind id name) (hremove : ∀ id, op ≠ .remove id)
    (bag : Bag) : bag.Continues (op.edit.apply bag).2 := by
  cases op with
  | openContent kind id name => exact absurd rfl (hopen kind id name)
  | remove id => exact absurd rfl (hremove id)
  | editContent kind hkind id f =>
      rw [Operation.edit]
      exact .editContent kind id _
  | editTable id op =>
      rw [Operation.edit]
      exact .editContent .table id _
  | rename id name =>
      rw [Operation.edit, Edit.apply_modify]
      exact .editEntry id _ fun s => ⟨rfl, rfl⟩
  | setPriority id priority =>
      rw [Operation.edit, Edit.apply_modify]
      exact .editEntry id _ fun s => ⟨rfl, rfl⟩
  | mark id tag =>
      rw [Operation.edit, Edit.apply_modify]
      exact .editEntry id _ fun s => ⟨rfl, rfl⟩
  | settle =>
      rw [Operation.edit, Edit.apply_modify]
      exact .mapValues bag .settled

/-- Under each id an action does one of four things. -/
theorem Action.turns (act : Action) (bag : Bag) (id : String) :
    Turns act id (bag.get? id) ((act.edit.apply bag).2.get? id) := by
  cases act with
  | editContent kind id' f =>
      rw [Action.edit]
      exact .of_continues (by simp) (by simp) (.editContent kind id' _)
  | reload g =>
      refine .of_continues (by simp) (by simp) ?_
      rw [Action.edit, Edit.apply_atomic]
      cases h : ofData g bag.toData with
      | error e => exact .refl bag
      | ok bag' => exact .ofData h
  | operation op =>
      by_cases hopen : ∃ kind id' name, op = .openContent kind id' name
      · obtain ⟨kind, id', name, rfl⟩ := hopen
        exact turns_openContent bag kind id' name id
      · by_cases hremove : ∃ id', op = .remove id'
        · obtain ⟨id', rfl⟩ := hremove
          exact turns_remove bag id' id
        · refine .of_continues (fun kind name heq => ?_) (fun heq => ?_)
            (op.continues (fun kind id name heq => hopen ⟨kind, id, name, heq⟩)
              (fun id heq => hremove ⟨id, heq⟩) bag)
          · exact hopen ⟨kind, id, name, Action.operation.inj heq⟩
          · exact hremove ⟨id, Action.operation.inj heq⟩

/-! ### A bag's history -/

/-- The bag that comes of actions on the empty one. -/
def after (acts : List Action) : Bag := Edit.performAll Action.edit acts empty

theorem turns_after (acts : List Action) (act : Action) (id : String) :
    Turns act id ((after acts).get? id) ((after (acts ++ [act])).get? id) := by
  have hlast : after (acts ++ [act]) = (act.edit.apply (after acts)).2 := List.foldl_concat ..
  rw [hlast]
  exact act.turns (after acts) id

/-- An entry of the kind was created under the id, and it has not been removed since. -/
def Opened (acts : List Action) (id : String) (kind : StructureKind) : Prop :=
  ∃ before name later, acts = before ++ .operation (.openContent kind id name) :: later ∧
    (after before).get? id = none ∧ .operation (.remove id) ∉ later

/-- Every entry has the id under which it is stored. -/
theorem id_of_after (acts : List Action) (h : (after acts).get? id = some s) : s.id = id := by
  induction acts using List.reverseRecOn generalizing s with
  | nil => cases h
  | append_singleton acts act ih =>
      have hturns := turns_after acts act id
      rw [h] at hturns
      generalize hbefore : (after acts).get? id = before at hturns
      cases hturns with
      | continues hact hs => exact hs.id.trans (ih hbefore)
      | created hact => rfl

theorem opened_of_after (acts : List Action) (h : (after acts).get? id = some s) :
    Opened acts id s.kind := by
  induction acts using List.reverseRecOn generalizing s with
  | nil => cases h
  | append_singleton acts act ih =>
      have hturns := turns_after acts act id
      rw [h] at hturns
      generalize hbefore : (after acts).get? id = before at hturns
      cases hturns with
      | continues hact hs =>
          obtain ⟨before, name, later, rfl, habsent, hremove⟩ := ih hbefore
          rw [hs.kind]
          refine ⟨before, name, later ++ [act], by simp, habsent, ?_⟩
          simp only [List.mem_append, List.mem_singleton, not_or]
          exact ⟨hremove, hact.symm⟩
      | @created kind name hact =>
          refine ⟨acts, name, [], ?_, hbefore, List.not_mem_nil⟩
          rw [hact, Structure.kind, Structure.create, Body.kind_of]

theorem Opened.exists_entry {acts : List Action} (h : Opened acts id kind) :
    ∃ s, (after acts).get? id = some s ∧ s.kind = kind := by
  obtain ⟨before, name, later, rfl, habsent, hremove⟩ := h
  induction later using List.reverseRecOn with
  | nil =>
      have hturns := turns_after before (.operation (.openContent kind id name)) id
      rw [habsent] at hturns
      generalize (after _).get? id = behind at hturns ⊢
      cases hturns with
      | absent hopen => exact absurd rfl (hopen kind name)
      | created hact =>
          obtain ⟨rfl, -, rfl⟩ := Operation.openContent.inj (Action.operation.inj hact)
          exact ⟨_, rfl, Body.kind_of kind _⟩
  | append_singleton later act ih =>
      simp only [List.mem_append, List.mem_singleton, not_or] at hremove
      obtain ⟨s, hs, hkind⟩ := ih hremove.1
      have hturns := turns_after (before ++ .operation (.openContent kind id name) :: later) act id
      rw [hs, List.append_assoc, List.cons_append] at hturns
      generalize (after _).get? id = behind at hturns ⊢
      cases hturns with
      | continues hact hs => exact ⟨_, rfl, hs.kind.trans hkind⟩
      | removed hact => exact absurd hact.symm hremove.2

/-! ### The list of the entries -/

/-- Entries that have the ids under which they are stored are listed in the order of priorities and
ids. -/
theorem pairwise_toList (h : ∀ id s, bag.get? id = some s → s.id = id) :
    bag.toList.Pairwise Structure.Before := by
  have hvalues : bag.entries.values.Pairwise fun a b => a.id < b.id := by
    refine List.pairwise_map.mpr (bag.entries.sorted.imp_of_mem fun {p q} hp hq hlt => ?_)
    rw [h p.1 p.2 (SortedMap.get?_eq_some_iff.mpr hp),
      h q.1 q.2 (SortedMap.get?_eq_some_iff.mpr hq)]
    exact compareOfLessAndEq_eq_lt.mp hlt
  have htrans : ∀ a b c : Structure, decide (a.priority ≤ b.priority) = true →
      decide (b.priority ≤ c.priority) = true → decide (a.priority ≤ c.priority) = true := by
    intro a b c hab hbc
    exact decide_eq_true (Int32.le_trans (of_decide_eq_true hab) (of_decide_eq_true hbc))
  have htotal : ∀ a b : Structure,
      (decide (a.priority ≤ b.priority) || decide (b.priority ≤ a.priority)) = true := by
    intro a b
    simpa using Int32.le_total a.priority b.priority
  refine (pairwise_mergeSort_of_pairwise htrans htotal hvalues).imp fun {a b} hab => ?_
  obtain ⟨hle, hsame⟩ := hab
  rcases Int32.lt_or_eq_of_le (of_decide_eq_true hle) with hlt | heq
  · exact .inl hlt
  · exact .inr ⟨heq, hsame (decide_eq_true (heq ▸ Int32.le_refl _))⟩

/-- **What becomes of the entries of a bag.**  Whatever happened to a bag since it was empty, every
entry is stored under its own id.  Each is listed once, in the order of the priorities and, within a
priority, of the ids.  The entries that there are, and their kinds, are those that were created and
not removed since.  To open an entry as what it is answers its content and changes nothing, not even
the name.  As another kind it can neither be opened nor read nor edited, and where there is none
nothing can be read or edited; the attempt fails and leaves the bag as it was. -/
theorem lifetimes (acts : List Action) :
    (∀ id s, (after acts).get? id = some s → s.id = id) ∧
      ((after acts).toList.Perm (after acts).entries.values ∧ (after acts).toList.Nodup ∧
        (after acts).toList.Pairwise Structure.Before) ∧
      (∀ id kind, (∃ s, (after acts).get? id = some s ∧ s.kind = kind) ↔ Opened acts id kind) ∧
      (∀ id s, (after acts).get? id = some s → ∃ content, s.body = .of s.kind content ∧
        ∀ name, (openContent s.kind id name).apply (after acts) = (.ok content, after acts)) ∧
      (∀ id s kind, (after acts).get? id = some s → kind ≠ s.kind →
        (after acts).Refuses kind id (.structureKind id kind s.kind) ∧
          ∀ name, (openContent kind id name).apply (after acts)
            = (.error (.structureKind id kind s.kind), after acts)) ∧
      ∀ id kind, (after acts).get? id = none →
        (after acts).Refuses kind id (.unknownStructure id) := by
  have hid : ∀ id s, (after acts).get? id = some s → s.id = id := fun id s => id_of_after acts
  have hpairwise := pairwise_toList hid
  refine ⟨hid, ⟨List.mergeSort_perm _ _, ?_, hpairwise⟩, fun id kind => ⟨?_, Opened.exists_entry⟩,
    fun id s hs => ?_, fun id s kind hs hkind => ?_, fun id kind hs => refuses_of_absent hs kind⟩
  · refine hpairwise.imp fun {a b} hab heq => ?_
    subst heq
    exact Structure.Before.irrefl a hab
  · rintro ⟨s, hs, rfl⟩
    exact opened_of_after acts hs
  · obtain ⟨content, hbody⟩ := s.exists_content
    exact ⟨content, hbody, apply_openContent_of_body hs hbody⟩
  · exact ⟨refuses_of_kind_ne hs hkind, apply_openContent_of_kind_ne hs hkind⟩

end Bag

end Chronicle
