import Chronicle.Proofs.Edit
import Chronicle.Proofs.Grammar.Proposal
/-!
What an operation can do to a grammar at a time.

All that the operations do, finalizing aside, is made of three moves: one entry gets a tag, another
nonterminal becomes the start symbol, or all emphasis is taken away (`Moves`).  An entry that gets
a tag was there, or it is one that the grammar admits: a symbol with a name of its kind, or a rule
whose symbols are there.  An invariant is `Stable` if no move breaks it, and then no operation does,
however it ends.

For what is said about the tags themselves, `Offers` also says which tag an entry gets: what is
there is only ever offered one (`Tag.resolve`), and what comes in is new.
-/

namespace Chronicle

/-- The entry of a symbol. -/
def GrammarEntry.symbol : SymbolKind → String → GrammarEntry
  | .nonterminal => .nonterminal
  | .terminal => .terminal

namespace Grammar

variable {g g' : Grammar} {name left : String} {key : RuleKey} {tag : Tag} {e e' : GrammarEntry}

/-! ### One entry -/

/-- The grammar with a tag for one entry. -/
def put (g : Grammar) : GrammarEntry → Tag → Grammar
  | .nonterminal name, tag => { g with nonterminals := g.nonterminals.insert name tag }
  | .terminal name, tag => { g with terminals := g.terminals.insert name tag }
  | .rule key, tag => g.withRule key tag

theorem tag?_put (g : Grammar) (e : GrammarEntry) (tag : Tag) (e' : GrammarEntry) :
    (g.put e tag).tag? e' = if e' = e then some tag else g.tag? e' := by
  cases e with
  | nonterminal name => exact tag?_insert_nonterminal g name tag e'
  | terminal name => exact tag?_insert_terminal g name tag e'
  | rule key => exact tag?_withRule g key tag e'

theorem has_put : (g.put e tag).Has e' ↔ e' = e ∨ g.Has e' := by
  rw [Has, tag?_put]
  by_cases h : e' = e
  · rw [if_pos h]
    exact ⟨fun _ => .inl h, fun _ => ⟨tag, rfl⟩⟩
  · rw [if_neg h, or_iff_right h]
    rfl

@[simp]
theorem start_put : (g.put e tag).start = g.start := by cases e <;> rfl

theorem dense_put (h : g.Dense) (e : GrammarEntry) (tag : Tag) : (g.put e tag).Dense := by
  cases e with
  | nonterminal name => exact h
  | terminal name => exact h
  | rule key => exact dense_withRule h key tag

/-! ### Moves -/

/-- Is the symbol there, of whichever kind? -/
def Knows (g : Grammar) (name : String) : Prop :=
  name ∈ g.outline.nonterminals ∨ name ∈ g.outline.terminals

/-- May the entry come into the grammar? -/
def Admits (g : Grammar) : GrammarEntry → Prop
  | .nonterminal name => SymbolKind.ofName? name = some .nonterminal
  | .terminal name => SymbolKind.ofName? name = some .terminal
  | .rule key => key.left ∈ g.outline.nonterminals ∧ ∀ s ∈ key.right.symbols, g.Knows s

/-- The steps of which the operations are made. -/
inductive Moves (g : Grammar) : Grammar → Prop
  | put {e : GrammarEntry} (h : g.Has e ∨ g.Admits e) (tag : Tag) : Moves g (g.put e tag)
  | restart {name : String} (h : name ∈ g.outline.nonterminals) : Moves g { g with start := name }
  | clear : Moves g g.clearTags

theorem admits_symbol {kind : SymbolKind} (h : SymbolKind.ofName? name = some kind) :
    g.Admits (.symbol kind name) := by
  cases kind <;> exact h

theorem withSymbol_eq_ok {expected : Option SymbolKind}
    (h : g.withSymbol name tag expected = .ok g') :
    ∃ kind, SymbolKind.ofName? name = some kind ∧ (∀ k ∈ expected, k = kind) ∧
      g' = g.put (.symbol kind name) tag := by
  unfold withSymbol at h
  split at h
  · simp at h
  · next kind hkind =>
      split at h
      · simp at h
      · next hexpected =>
          refine ⟨kind, hkind, ?_, ?_⟩
          · intro k hk
            obtain rfl : expected = some k := hk
            simpa using hexpected
          · cases kind <;> exact (Except.ok.inj h).symm

theorem moves_of_withSymbol {expected : Option SymbolKind}
    (h : g.withSymbol name tag expected = .ok g') : Moves g g' := by
  obtain ⟨kind, hkind, -, rfl⟩ := withSymbol_eq_ok h
  exact .put (.inr (admits_symbol hkind)) tag

theorem requireNonterminal_eq_ok :
    g.requireNonterminal name = .ok () ↔ name ∈ g.outline.nonterminals := by
  cases hget : g.nonterminals.get? name with
  | some tag =>
      simp only [requireNonterminal, symbol?, hget, true_iff]
      exact ⟨tag, hget⟩
  | none =>
      have hnot : name ∉ g.outline.nonterminals := by
        intro hmem
        obtain ⟨tag, htag⟩ := hmem
        rw [show g.nonterminals.get? name = some tag from htag] at hget
        cases hget
      simp only [hnot, iff_false, requireNonterminal, symbol?, hget]
      cases g.terminals.get? name <;> simp

theorem requireWord_eq_ok {word : Word} :
    g.requireWord word = .ok () ↔ ∀ s ∈ word.symbols, g.Knows s := by
  have hnone : (∀ s ∈ word.symbols, g.Knows s)
      ↔ word.symbols.find? (!g.containsSymbol ·) = none := by
    rw [List.find?_eq_none]
    simp only [Bool.not_eq_true', Bool.not_eq_false, containsSymbol_iff, Knows]
  rw [hnone, requireWord]
  split <;> simp_all

theorem moves_withRule {right : Word} (hleft : g.requireNonterminal left = .ok ())
    (hright : g.requireWord right = .ok ()) (tag : Tag) :
    Moves g (g.withRule ⟨left, right⟩ tag) :=
  .put (e := .rule ⟨left, right⟩)
    (.inr ⟨requireNonterminal_eq_ok.mp hleft, requireWord_eq_ok.mp hright⟩) tag

/-! ### Offers -/

/-- The moves as the operations make them: an entry that is there is offered a tag, one of those
that are `ok`, and an entry that comes in is new. -/
inductive Offers (ok : Tag → Prop) (g : Grammar) : Grammar → Prop
  | offer {e : GrammarEntry} {present tag : Tag} (h : g.tag? e = some present) (hok : ok tag) :
      Offers ok g (g.put e (present.resolve tag))
  | add {e : GrammarEntry} (h : g.Admits e) (habsent : ¬g.Has e) : Offers ok g (g.put e .new)
  | restart {name : String} (h : name ∈ g.outline.nonterminals) :
      Offers ok g { g with start := name }
  | clear : Offers ok g g.clearTags

theorem Offers.moves {ok : Tag → Prop} (h : Offers ok g g') : Moves g g' := by
  cases h with
  | offer h hok => exact .put (.inl ⟨_, h⟩) _
  | add h habsent => exact .put (.inr h) .new
  | restart h => exact .restart h
  | clear => exact .clear

/-- A symbol comes in when neither kind has the name. -/
theorem offers_withSymbol {ok : Tag → Prop} {expected : Option SymbolKind}
    (habsent : g.containsSymbol name ≠ true) (h : g.withSymbol name .new expected = .ok g') :
    Offers ok g g' := by
  obtain ⟨kind, hkind, -, rfl⟩ := withSymbol_eq_ok h
  rw [ne_eq, containsSymbol_iff, not_or] at habsent
  refine .add (admits_symbol hkind) ?_
  cases kind with
  | nonterminal => exact habsent.1
  | terminal => exact habsent.2

/-- No offer breaks the invariant. -/
def Withstands (ok : Tag → Prop) (inv : Grammar → Prop) : Prop :=
  ∀ ⦃g g'⦄, inv g → Offers ok g g' → inv g'

namespace Withstands

variable {ok : Tag → Prop} {inv : Grammar → Prop}

theorem keeps_markSymbol (h : Withstands ok inv) (name : String) (hok : ok tag) :
    Edit.Keeps inv (markSymbol name tag) := by
  refine .atomic fun g answer next hg heq => ?_
  split at heq
  · next present hpresent =>
      obtain ⟨-, rfl⟩ := Prod.mk.inj (Except.ok.inj heq)
      exact h hg (.offer (e := .nonterminal name) hpresent hok)
  · split at heq
    · next present hpresent =>
        obtain ⟨-, rfl⟩ := Prod.mk.inj (Except.ok.inj heq)
        exact h hg (.offer (e := .terminal name) hpresent hok)
    · simp at heq

theorem keeps_markRule (h : Withstands ok inv) (key : RuleKey) (hok : ok tag) :
    Edit.Keeps inv (markRule key tag) := by
  refine .atomic fun g answer next hg heq => ?_
  split at heq
  · next present hpresent =>
      obtain ⟨-, rfl⟩ := Prod.mk.inj (Except.ok.inj heq)
      exact h hg (.offer (e := .rule key) hpresent hok)
  · simp at heq

theorem keeps_addSymbol (h : Withstands ok inv) (name : String) :
    Edit.Keeps inv (addSymbol name) := by
  refine .atomic fun g answer next hg heq => ?_
  split at heq
  · obtain ⟨g', hsame, heq⟩ := exists_of_bind_eq_ok heq
    obtain rfl : g = g' := Except.ok.inj hsame
    dsimp only at heq
    split at heq
    · obtain ⟨-, rfl⟩ := Prod.mk.inj (Except.ok.inj heq)
      exact hg
    · cases heq
  · next habsent =>
      obtain ⟨g', hadd, heq⟩ := exists_of_bind_eq_ok heq
      dsimp only at heq
      split at heq
      · obtain ⟨-, rfl⟩ := Prod.mk.inj (Except.ok.inj heq)
        exact h hg (offers_withSymbol habsent hadd)
      · cases heq

theorem keeps_addRule (h : Withstands ok inv) (left : String) (right : Word)
    (hok : ok .duplicate) : Edit.Keeps inv (addRule left right) := by
  refine .atomic fun g answer next hg heq => ?_
  obtain ⟨_, hleft, heq⟩ := exists_of_bind_eq_ok heq
  obtain ⟨_, hright, heq⟩ := exists_of_bind_eq_ok heq
  obtain ⟨-, rfl⟩ := Prod.mk.inj (Except.ok.inj heq)
  refine h hg ?_
  cases hpresent : g.ruleTag? ⟨left, right⟩ with
  | some present => exact .offer (e := .rule ⟨left, right⟩) hpresent hok
  | none =>
      refine .add (e := .rule ⟨left, right⟩)
        ⟨requireNonterminal_eq_ok.mp hleft, requireWord_eq_ok.mp hright⟩ ?_
      rintro ⟨present, hsome⟩
      rw [tag?, hpresent] at hsome
      cases hsome

theorem keeps_changeStart (h : Withstands ok inv) (name : String) :
    Edit.Keeps inv (changeStart name) := by
  refine .atomic fun g answer next hg heq => ?_
  obtain ⟨_, hname, heq⟩ := exists_of_bind_eq_ok heq
  obtain ⟨-, rfl⟩ := Prod.mk.inj (Except.ok.inj heq)
  exact h hg (.restart (requireNonterminal_eq_ok.mp hname))

theorem keeps_newNonterminal (h : Withstands ok inv) (desired : String) :
    Edit.Keeps inv (newNonterminal desired) := by
  unfold newNonterminal
  split
  · exact .bind (.throw _) fun _ => .bind (fun _ hg => hg) fun _ =>
      .bind (h.keeps_addSymbol _) fun _ => .pure _
  · exact .bind (fun _ hg => hg) fun _ => .bind (h.keeps_addSymbol _) fun _ => .pure _

theorem keeps_replaceRule (h : Withstands ok inv) (old : RuleKey) (right : Word)
    (hremoved : ok .removed) (hduplicate : ok .duplicate) (hreplaced : ok .replaced) :
    Edit.Keeps inv (replaceRule old right) :=
  .bind (.discard (h.keeps_markRule _ hremoved)) fun _ =>
    .bind (h.keeps_addRule _ _ hduplicate) fun _ =>
      .bind (h.keeps_markRule _ hreplaced) fun _ => .pure _

end Withstands

/-! ### Invariants -/

/-- No move breaks the invariant. -/
def Stable (inv : Grammar → Prop) : Prop := ∀ ⦃g g'⦄, inv g → Moves g g' → inv g'

namespace Stable

variable {inv : Grammar → Prop}

theorem withstands (h : Stable inv) (ok : Tag → Prop) : Withstands ok inv :=
  fun _ _ hg hoffers => h hg hoffers.moves

/-- The archived rules of one left side come in by moves. -/
theorem addArchivedGroup (h : Stable inv) {texts : SortedMap String Tag} (hg : inv g)
    (heq : g.addArchivedGroup left texts = .ok g') : inv g' := by
  obtain ⟨_, hleft, heq⟩ := exists_of_bind_eq_ok heq
  -- Rules come in under one look at the left side, so it has to stay a nonterminal.
  have hboth : inv g' ∧ left ∈ g'.outline.nonterminals :=
    inv_of_foldlM_eq_ok (fun g => inv g ∧ left ∈ g.outline.nonterminals)
      ⟨hg, requireNonterminal_eq_ok.mp hleft⟩ (fun g₁ pair g₂ h₁ hpair => ?_) heq
  · exact hboth.1
  · obtain ⟨_, hright, hpair⟩ := exists_of_bind_eq_ok hpair
    obtain rfl := Except.ok.inj hpair
    exact ⟨h h₁.1 (moves_withRule (requireNonterminal_eq_ok.mpr h₁.2) hright _), h₁.2⟩

end Stable

end Grammar

end Chronicle
