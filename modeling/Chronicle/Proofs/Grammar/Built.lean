import Chronicle.Proofs.Grammar.Moves
/-!
The grammars that can be built.

A grammar is made from a start symbol or from archived data and changed by the operations of
`Operation`, whether they succeed or not (`Built`).  On all of these ways a name is looked at before
it comes in, so in every grammar that is built the names fit the kinds (`Built.proper`), and what
finalizing it gives is intact (`Built.intact`).
-/

namespace Chronicle

/-- The name of the entry fits its kind; a rule has a nonterminal on the left. -/
def GrammarEntry.Proper : GrammarEntry → Prop
  | .nonterminal name => SymbolKind.ofName? name = some .nonterminal
  | .terminal name => SymbolKind.ofName? name = some .terminal
  | .rule key => SymbolKind.ofName? key.left = some .nonterminal

namespace Grammar

variable {g g' : Grammar} {e : GrammarEntry}

/-! ### The operations -/

/-- What a grammar can be asked for from outside. -/
inductive Operation
  | addSymbol (name : String)
  | newNonterminal (desired : String)
  | removeSymbol (name : String)
  | addRule (left : String) (right : Word)
  | removeRule (key : RuleKey)
  | replaceRule (old : RuleKey) (right : Word)
  | changeStart (name : String)
  | markSymbol (name : String) (tag : Tag)
  | markRule (key : RuleKey) (tag : Tag)
  | clearTags
  | finalize

/-- The edit that an operation is. -/
def Operation.edit : Operation → Edit Grammar Unit
  | addSymbol name => discard (Grammar.addSymbol name)
  | newNonterminal desired => discard (Grammar.newNonterminal desired)
  | removeSymbol name => Grammar.removeSymbol name
  | addRule left right => discard (Grammar.addRule left right)
  | removeRule key => Grammar.removeRule key
  | replaceRule old right => discard (Grammar.replaceRule old right)
  | changeStart name => Grammar.changeStart name
  | markSymbol name tag => discard (Grammar.markSymbol name tag)
  | markRule key tag => discard (Grammar.markRule key tag)
  | clearTags => modify Grammar.clearTags
  | finalize => Grammar.finalize

/-- The grammars that there are. -/
inductive Built : Grammar → Prop
  | ofStart {g : Grammar} {start : String} (h : Grammar.ofStart start = .ok g) : Built g
  | ofData {g : Grammar} {data : GrammarData} (h : Grammar.ofData data = .ok g) : Built g
  | edit {g : Grammar} (h : Built g) (op : Operation) : Built (op.edit.apply g).2

/-- The operation proposes something, and the tag that it is to mark with, if any, is `ok`. -/
def Operation.Within (ok : Tag → Prop) : Operation → Prop
  | markSymbol _ tag => ok tag
  | markRule _ tag => ok tag
  | finalize => False
  | _ => True

/-- No operation breaks an invariant that its offers do not break. -/
theorem Withstands.keeps {ok : Tag → Prop} {inv : Grammar → Prop} (h : Withstands ok inv)
    (hremoved : ok .removed) (hduplicate : ok .duplicate) (hreplaced : ok .replaced)
    {op : Operation} (hop : op.Within ok) : Edit.Keeps inv op.edit := by
  cases op with
  | addSymbol name => exact (h.keeps_addSymbol name).discard
  | newNonterminal desired => exact (h.keeps_newNonterminal desired).discard
  | removeSymbol name => exact (h.keeps_markSymbol name hremoved).discard
  | addRule left right => exact (h.keeps_addRule left right hduplicate).discard
  | removeRule key => exact (h.keeps_markRule key hremoved).discard
  | replaceRule old right =>
      exact (h.keeps_replaceRule old right hremoved hduplicate hreplaced).discard
  | changeStart name => exact h.keeps_changeStart name
  | markSymbol name tag => exact (h.keeps_markSymbol name hop).discard
  | markRule key tag => exact (h.keeps_markRule key hop).discard
  | clearTags => exact fun g hg => h hg .clear
  | finalize => exact hop.elim

/-- No operation but finalizing breaks an invariant that no move breaks. -/
theorem Stable.keeps {inv : Grammar → Prop} (h : Stable inv) (op : Operation)
    (hop : op ≠ .finalize) : Edit.Keeps inv op.edit := by
  refine (h.withstands fun _ => True).keeps trivial trivial trivial ?_
  cases op <;> first | exact trivial | exact absurd rfl hop

/-! ### Names -/

/-- The names of all entries fit their kinds. -/
def Proper (g : Grammar) : Prop := ∀ e, g.Has e → e.Proper

theorem named_iff : g.outline.Named ↔ g.Proper := by
  constructor
  · intro h e he
    cases e with
    | nonterminal name => exact h.nonterminal name he
    | terminal name => exact h.terminal name he
    | rule key => exact h.left key he
  · intro h
    exact ⟨fun s hs => h (.nonterminal s) hs, fun s hs => h (.terminal s) hs,
      fun key hkey => h (.rule key) hkey⟩

theorem Proper.mono (h : g.Proper) (hhas : ∀ e, g'.Has e → g.Has e) : g'.Proper :=
  fun e he => h e (hhas e he)

/-- What the grammar admits has the name for it. -/
theorem Proper.of_admits (h : g.Proper) (he : g.Admits e) : e.Proper := by
  cases e with
  | nonterminal name => exact he
  | terminal name => exact he
  | rule key => exact h (.nonterminal key.left) he.1

theorem Proper.settled (h : g.Proper) : g.settled.Proper := by
  refine h.mono fun e he => ?_
  obtain ⟨tag, htag, -⟩ := has_settled.mp he
  exact ⟨tag, htag⟩

/-- Names are looked at before they come in. -/
theorem stable_proper : Stable Proper := by
  intro g g' h hmoves
  cases hmoves with
  | @put e he tag =>
      intro e' he'
      rcases has_put.mp he' with rfl | he'
      · exact he.elim (h e') h.of_admits
      · exact h e' he'
  | restart hname =>
      refine h.mono fun e he => ?_
      cases e <;> exact he
  | clear => exact h.mono fun e he => has_clearTags.mp he

theorem keeps_finalize : Edit.Keeps Proper finalize :=
  .bind (fun _ h => h.settled) fun _ => .reading _

theorem Operation.keeps_proper (op : Operation) : Edit.Keeps Proper op.edit := by
  by_cases hfinalize : op = .finalize
  · subst hfinalize
    exact keeps_finalize
  · exact stable_proper.keeps op hfinalize

theorem proper_empty (start : String) : Proper ⟨.empty, .empty, .empty, start⟩ := by
  intro e he
  obtain ⟨tag, htag⟩ := he
  cases e <;> simp [tag?, ruleTag?] at htag

/-- Every name in archived data is looked at. -/
theorem proper_of_ofData {data : GrammarData} (h : ofData data = .ok g) : g.Proper := by
  obtain ⟨g₁, hnonterminals, h⟩ := exists_of_bind_eq_ok h
  obtain ⟨g₂, hterminals, h⟩ := exists_of_bind_eq_ok h
  obtain ⟨_, -, hrules⟩ := exists_of_bind_eq_ok h
  have h₁ : g₁.Proper := inv_of_foldlM_eq_ok Proper (proper_empty data.start)
    (fun _ _ _ hb heq => stable_proper hb (moves_of_withSymbol heq)) hnonterminals
  have h₂ : g₂.Proper := inv_of_foldlM_eq_ok Proper h₁
    (fun _ _ _ hb heq => stable_proper hb (moves_of_withSymbol heq)) hterminals
  exact inv_of_foldlM_eq_ok Proper h₂
    (fun _ _ _ hb heq => stable_proper.addArchivedGroup hb heq) hrules

theorem Built.proper (h : g.Built) : g.Proper := by
  induction h with
  | @ofStart g start h => exact stable_proper (proper_empty start) (moves_of_withSymbol h)
  | ofData h => exact proper_of_ofData h
  | edit _ op ih => exact op.keeps_proper _ ih

/-- **A grammar that is built and finalized is intact.** -/
theorem Built.intact (h : g.Built) (hfinalize : finalize.apply g = (.ok (), g')) :
    g' = g.settled ∧ g'.Intact :=
  intact_of_finalize (named_iff.mpr h.proper) hfinalize

end Grammar

end Chronicle
