import Chronicle.Procedure.Reduction
import Chronicle.Proofs.Structure.OneSet
/-!
A state in the middle of a step that only proposes.

A step begins on a state that is settled: an intact grammar with some outline, and an empty bag or
one set in it (`Snapshot.Presents`).  While the step goes on, the outline stays what it was and the
entries that are to go are gathered (`Snapshot.Amid`).  When the step is archived they go, and the
state that is handed on is settled again (`Snapshot.Amid.renewed`).

What an edit does to such a state is stated by `Edit.Yields`: it succeeds, and its answer and the
state it leaves are as said.
-/

namespace Chronicle

namespace Edit

variable {σ α β : Type} {e : Edit σ α} {f : α → Edit σ β} {s : σ} {Q Q' : α → σ → Prop}
  {R : β → σ → Prop}

/-- The edit succeeds, with an answer and a state that are as said. -/
def Yields (e : Edit σ α) (s : σ) (Q : α → σ → Prop) : Prop :=
  ∃ a next, e.apply s = (.ok a, next) ∧ Q a next

namespace Yields

theorem pure {a : α} (h : Q a s) : Yields (pure a) s Q := ⟨a, s, rfl, h⟩

theorem mono (h : e.Yields s Q) (himp : ∀ a next, Q a next → Q' a next) : e.Yields s Q' := by
  obtain ⟨a, next, happly, hq⟩ := h
  exact ⟨a, next, happly, himp a next hq⟩

theorem bind (h : e.Yields s Q) (hnext : ∀ a next, Q a next → (f a).Yields next R) :
    (e >>= f).Yields s R := by
  obtain ⟨a, next, happly, hq⟩ := h
  obtain ⟨b, last, happly', hr⟩ := hnext a next hq
  exact ⟨b, last, (apply_bind_of_ok happly f).trans happly', hr⟩

/-- The present state can be looked at. -/
theorem get_bind {f : σ → Edit σ β} (h : (f s).Yields s R) : (get >>= f).Yields s R := by
  obtain ⟨b, last, happly, hr⟩ := h
  exact ⟨b, last, (apply_bind_of_ok (apply_get s) f).trans happly, hr⟩

/-- A loop; the invariant tells of the items that are done. -/
theorem forM (inv : List α → σ → Prop) {f : α → Edit σ Unit} (l : List α) (h : inv [] s)
    (hstep : ∀ before, ∀ a ∈ l, ∀ s, inv before s →
      (f a).Yields s fun _ next => inv (before ++ [a]) next) :
    (l.forM f).Yields s fun _ => inv l := by
  have hloop : ∀ (after before : List α) (s : σ), inv before s → (∀ a ∈ after, a ∈ l) →
      (after.forM f).Yields s fun _ => inv (before ++ after) := by
    intro after
    induction after with
    | nil =>
        intro before s hs _
        exact ⟨(), s, rfl, by simpa using hs⟩
    | cons a after ih =>
        intro before s hs hmem
        refine bind (hstep before a (hmem a List.mem_cons_self) s hs) fun _ next hnext => ?_
        have hrest := ih (before ++ [a]) next hnext fun b hb => hmem b (List.mem_cons_of_mem _ hb)
        refine hrest.mono fun _ last hlast => ?_
        simpa using hlast
  simpa using hloop l [] s h fun a ha => ha

end Yields

end Edit

/-! ### Outlines with fewer entries -/

namespace Outline

variable {o : Outline} {doomed : Set GrammarEntry}

/-- The outline without some entries. -/
def without (o : Outline) (doomed : Set GrammarEntry) : Outline where
  start := o.start
  nonterminals := {name ∈ o.nonterminals | .nonterminal name ∉ doomed}
  terminals := {name ∈ o.terminals | .terminal name ∉ doomed}
  rules := {key ∈ o.rules | .rule key ∉ doomed}

theorem without_empty (o : Outline) : o.without ∅ = o := by
  ext x <;> simp [without]

/-- The members of the set, if there is one, are nonterminals. -/
def Covers (o : Outline) : Option (String × Set String) → Prop
  | none => True
  | some (_, members) => members ⊆ o.nonterminals

end Outline

/-- What an intact grammar is finalized to after a proposal that leaves no reference to what
goes. -/
theorem Grammar.Proposes.finalize_eq {g g' : Grammar} {doomed : Set GrammarEntry}
    (h : g.Proposes g' doomed) (hintact : g.Intact) (hclosed : (g.outline.without doomed).Closed) :
    finalize.apply g' = (.ok (), g'.settled) ∧ g'.settled.Intact ∧
      g'.settled.outline = g.outline.without doomed := by
  have hfuture : g'.future = g.outline.without doomed := h.future_eq hintact.not_removed
  have hnamed : g'.outline.Named := by
    rw [h.outline_eq]
    exact hintact.named
  obtain ⟨hfinalize, hsettled⟩ := finalize_of_closed hnamed (hfuture ▸ hclosed)
  exact ⟨hfinalize, hsettled, (outline_settled _).trans hfuture⟩

namespace Bag

/-- The bag as a step finds it: empty, or with one set in it. -/
def Shows (bag : Bag) : Option (String × Set String) → Prop
  | none => bag = .empty
  | some (id, members) => bag.HoldsSet id members members

end Bag

theorem Bag.Shows.settled_none {bag : Bag} (h : bag.Shows none) : bag.settled.Shows none := by
  obtain rfl : bag = .empty := h
  rfl

namespace Snapshot

variable {s : Snapshot} {o : Outline} {doomed doomed' : Set GrammarEntry} {bag : Bag → Prop}
  {view : Option (String × Set String)} {α : Type}

/-- The state as a step finds it. -/
structure Presents (s : Snapshot) (o : Outline) (view : Option (String × Set String)) : Prop where
  intact : s.grammar.Intact
  outline : s.grammar.outline = o
  structures : s.structures.Shows view

/-- The state in the middle of a step that began with the outline `o`: the entries of `doomed` are
to go, and the bag is as said. -/
structure Amid (s : Snapshot) (o : Outline) (doomed : Set GrammarEntry) (bag : Bag → Prop) :
    Prop where
  proposes : ∃ g : Grammar, g.Intact ∧ g.outline = o ∧ g.Proposes s.grammar doomed
  structures : bag s.structures

/-- What is handed on of an intact grammar without structures comes back. -/
theorem materialize_ofGrammar {g : Grammar} (h : g.Intact) :
    (ofGrammar g).toData.materialize = .ok (ofGrammar g) := by
  have hofData : Grammar.ofData (ofGrammar g).toData.grammar = .ok g := h.sound.ofData_toData
  rw [SnapshotData.materialize, hofData]
  rfl

/-- The archived state, if the grammar can be finalized. -/
theorem archive_of_finalize {g : Grammar}
    (hfinalize : Grammar.finalize.apply s.grammar = (.ok (), g)) :
    s.archive = .ok (toData ⟨g, s.structures.settled⟩) := by
  have hgrammar : (Snapshot.editGrammar Grammar.finalize).apply s
      = (.ok (), { s with grammar := g }) := by
    rw [Snapshot.editGrammar, Edit.apply_on, hfinalize]
  rw [archive, finalize, Edit.apply_bind_of_ok hgrammar]
  rfl

/-- What is handed on of a state whose grammar can be finalized: that grammar, and the bag as it
is when it has settled. -/
theorem renewed_of_finalize {g : Grammar}
    (hfinalize : Grammar.finalize.apply s.grammar = (.ok (), g)) (hintact : g.Intact)
    (hshows : s.structures.settled.Shows view) (hcovers : g.outline.Covers view) :
    ∃ data next, s.archive = .ok data ∧ data.materialize = .ok next ∧
      next.grammar = g ∧ next.structures.Shows view := by
  have hgrammar : Grammar.ofData g.toData = .ok g := hintact.sound.ofData_toData
  have hbag : ∃ b, Bag.ofData g s.structures.settled.toData = .ok b ∧ b.Shows view := by
    match view, hshows, hcovers with
    | none, hshows, _ =>
        rw [show s.structures.settled = .empty from hshows]
        exact ⟨.empty, rfl, rfl⟩
    | some (id, members), hshows, hcovers =>
        refine Bag.HoldsSet.ofData_toData hshows fun item hitem => ?_
        exact Grammar.containsSymbol_iff.mpr (.inl (hcovers hitem))
  obtain ⟨b, hofData, hshows⟩ := hbag
  refine ⟨_, ⟨g, b⟩, archive_of_finalize hfinalize, ?_, rfl, hshows⟩
  simp only [SnapshotData.materialize, toData, hgrammar, hofData, bind, Except.bind, pure,
    Except.pure]

/-- A step begins with nothing to go. -/
theorem Presents.amid (h : s.Presents o view) : s.Amid o ∅ (·.Shows view) :=
  ⟨⟨s.grammar, h.intact, h.outline, .refl h.intact.old⟩, h.structures⟩

namespace Amid

theorem outline_eq (h : s.Amid o doomed bag) : s.grammar.outline = o := by
  obtain ⟨⟨g, -, rfl, hproposes⟩, -⟩ := h
  exact hproposes.outline_eq

theorem closed (h : s.Amid o doomed bag) : o.Closed := by
  obtain ⟨⟨g, hintact, rfl, -⟩, -⟩ := h
  exact hintact.closed

theorem old (h : s.Amid o doomed bag) : s.grammar.Old := by
  obtain ⟨⟨g, -, -, hproposes⟩, -⟩ := h
  exact hproposes.old

theorem start_eq (h : s.Amid o doomed bag) : s.grammar.start = o.start := by
  rw [← h.outline_eq]
  rfl

/-- An edit of the grammar that proposes. -/
theorem editGrammar (h : s.Amid o doomed bag) {e : Edit Grammar α} {a : α} {g' : Grammar}
    (happly : e.apply s.grammar = (.ok a, g')) (hproposes : s.grammar.Proposes g' doomed') :
    (editGrammar e).Yields s fun _ next =>
      next.grammar = g' ∧ next.Amid o (doomed ∪ doomed') bag := by
  obtain ⟨⟨g, hintact, houtline, hbefore⟩, hbag⟩ := h
  refine ⟨a, { s with grammar := g' }, ?_, rfl, ⟨g, hintact, houtline, hbefore.trans hproposes⟩,
    hbag⟩
  rw [Snapshot.editGrammar, Edit.apply_on, happly]

/-- The same if nothing more is to go. -/
theorem markGrammar (h : s.Amid o doomed bag) {e : Edit Grammar α} {a : α} {g' : Grammar}
    (happly : e.apply s.grammar = (.ok a, g')) (hproposes : s.grammar.Proposes g' ∅) :
    (Snapshot.editGrammar e).Yields s fun _ next => next.grammar = g' ∧ next.Amid o doomed bag := by
  refine (h.editGrammar happly hproposes).mono fun _ next hnext => ?_
  rwa [Set.union_empty] at hnext

/-- An edit of the bag. -/
theorem editStructures (h : s.Amid o doomed bag) (bag' : Bag → Prop) {e : Edit Bag α} {a : α}
    {b : Bag} (happly : e.apply s.structures = (.ok a, b)) (hbag : bag' b) :
    (editStructures e).Yields s fun answer next =>
      answer = a ∧ next.grammar = s.grammar ∧ next.Amid o doomed bag' := by
  refine ⟨a, { s with structures := b }, ?_, rfl, rfl, h.proposes, hbag⟩
  rw [Snapshot.editStructures, Edit.apply_on, happly]

theorem imp (h : s.Amid o doomed bag) {bag' : Bag → Prop} (himp : ∀ b, bag b → bag' b) :
    s.Amid o doomed bag' :=
  ⟨h.proposes, himp _ h.structures⟩

/-! ### Archiving -/

/-- The grammar is finalized, if no reference to what goes is left. -/
theorem finalize_eq (h : s.Amid o doomed bag) (hclosed : (o.without doomed).Closed) :
    Grammar.finalize.apply s.grammar = (.ok (), s.grammar.settled) ∧
      s.grammar.settled.Intact ∧ s.grammar.settled.outline = o.without doomed := by
  obtain ⟨⟨g, hintact, rfl, hproposes⟩, -⟩ := h
  exact hproposes.finalize_eq hintact hclosed

/-- The archived state, if no reference to what goes is left. -/
theorem archive_eq (h : s.Amid o doomed bag) (hclosed : (o.without doomed).Closed) :
    s.archive = .ok (toData ⟨s.grammar.settled, s.structures.settled⟩) ∧
      s.grammar.settled.Intact ∧ s.grammar.settled.outline = o.without doomed := by
  obtain ⟨hfinalize, hintact, houtline⟩ := h.finalize_eq hclosed
  exact ⟨archive_of_finalize hfinalize, hintact, houtline⟩

/-- **What the next step finds.** -/
theorem renewed (h : s.Amid o doomed fun b => b.settled.Shows view)
    (hclosed : (o.without doomed).Closed) (hcovers : (o.without doomed).Covers view) :
    ∃ data next, s.archive = .ok data ∧ data.materialize = .ok next ∧
      next.Presents (o.without doomed) view := by
  obtain ⟨hfinalize, hintact, houtline⟩ := h.finalize_eq hclosed
  obtain ⟨data, next, harchive, hmaterialize, hgrammar, hshows⟩ :=
    renewed_of_finalize hfinalize hintact h.structures (houtline ▸ hcovers)
  exact ⟨data, next, harchive, hmaterialize, hgrammar ▸ hintact, hgrammar ▸ houtline, hshows⟩

end Amid

end Snapshot

end Chronicle
