import Chronicle.Proofs.Grammar.Built
/-!
Removals, from the request to the archive.

To remove an entry is to offer it the tag `removed`, and what decides is the tag that it has by then
(`Tag.resolve`).  An entry that was added in the step under way stays new, so removing it changes
nothing.  Every other entry comes to be tagged removed and no offer takes that back
(`withstands_removed`): it may be added again, replaced, marked, or the emphasis taken away, and
when the proposals are made true it is gone.
-/

namespace Chronicle

/-- The operation that removes an entry. -/
def GrammarEntry.removal : GrammarEntry → Grammar.Operation
  | .nonterminal name => .removeSymbol name
  | .terminal name => .removeSymbol name
  | .rule key => .removeRule key

namespace Grammar

variable {g g' : Grammar} {e : GrammarEntry} {tag : Tag}

/-- An entry with the tag that it has. -/
theorem put_tag (h : g.tag? e = some tag) : g.put e tag = g := by
  cases e with
  | nonterminal name => rw [put, SortedMap.insert_of_get? h]
  | terminal name => rw [put, SortedMap.insert_of_get? h]
  | rule key =>
      obtain ⟨group, hgroup, hright⟩ := ruleTag?_eq_some.mp h
      rw [put, withRule, hgroup, Option.getD_some, SortedMap.insert_of_get? hright,
        SortedMap.insert_of_get? hgroup]

/-- A name is not of two kinds, so the entry that is asked for is the one that is marked. -/
theorem Proper.apply_removal (hg : g.Proper) (he : g.tag? e = some tag) :
    e.removal.edit.apply g = (.ok (), g.put e (tag.resolve .removed)) := by
  cases e with
  | nonterminal name => exact apply_discard_markSymbol_nonterminal he .removed
  | terminal name =>
      have hnone : g.tag? (.nonterminal name) = none := by
        refine Option.eq_none_iff_forall_ne_some.mpr fun present hpresent => ?_
        have hkind : SymbolKind.ofName? name = some .terminal := hg (.terminal name) ⟨tag, he⟩
        rw [show SymbolKind.ofName? name = some .nonterminal from hg _ ⟨present, hpresent⟩] at hkind
        cases hkind
      exact apply_discard_markSymbol_terminal hnone he .removed
  | rule key => exact removeRule_of_tag he

/-- No offer takes a removal back. -/
theorem withstands_removed (ok : Tag → Prop) (e : GrammarEntry) :
    Withstands ok fun g => g.tag? e = some .removed := by
  intro g g' hg hoffers
  cases hoffers with
  | @offer e' present tag hpresent hok =>
      rw [tag?_put]
      split
      · next heq =>
          subst heq
          obtain rfl : Tag.removed = present := Option.some.inj (hg.symm.trans hpresent)
          rw [Tag.resolve_removed]
      · exact hg
  | @add e' hadmits habsent =>
      have hne : e ≠ e' := fun heq => habsent (heq ▸ ⟨.removed, hg⟩)
      rw [tag?_put, if_neg hne, hg]
  | restart hname => cases e <;> exact hg
  | clear => rw [tag?_clearTags, hg, Option.map_some, Tag.resolve_removed]

/-- What is tagged removed stays so, whatever is asked for until the proposals are made true. -/
theorem tag?_performAll_removed {ops : List Operation} (hops : ∀ op ∈ ops, op ≠ .finalize)
    (h : g.tag? e = some .removed) :
    (Edit.performAll Operation.edit ops g).tag? e = some .removed := by
  have hkeeps : ∀ op ∈ ops, Edit.Keeps (fun g : Grammar => g.tag? e = some .removed) op.edit := by
    intro op hop
    refine (withstands_removed (fun _ => True) e).keeps trivial trivial trivial ?_
    cases op <;> first | exact trivial | exact absurd rfl (hops _ hop)
  exact Edit.Keeps.performAll hkeeps h

/-- **A removal takes effect, unless the entry was added in the step under way.**  It succeeds for
every entry that is there.  If the entry is not new, it is gone after any further operations,
whether they succeed or not, once the proposals are made true; if it is new, nothing changes. -/
theorem removal_takes_effect (hg : g.Built) (he : g.tag? e = some tag) :
    ∃ g₁, e.removal.edit.apply g = (.ok (), g₁) ∧
      (tag ≠ .new → ∀ ops : List Operation, (∀ op ∈ ops, op ≠ .finalize) → ∀ g₂,
        finalize.apply (Edit.performAll Operation.edit ops g₁) = (.ok (), g₂) → ¬g₂.Has e) ∧
      (tag = .new → g₁ = g) := by
  refine ⟨_, hg.proper.apply_removal he, fun hnew ops hops g₂ hfinalize => ?_, fun hnew => ?_⟩
  · have hremoved : (g.put e (tag.resolve .removed)).tag? e = some .removed := by
      rw [tag?_put, if_pos rfl, (Tag.resolve_eq_removed hnew).mpr (.inr rfl)]
    have hlater := tag?_performAll_removed hops hremoved
    obtain rfl : _ = g₂ := (Prod.mk.inj ((apply_finalize _).symm.trans hfinalize)).2
    rw [has_settled, hlater]
    rintro ⟨present, hpresent, hne⟩
    exact hne (Option.some.inj hpresent).symm
  · subst hnew
    exact put_tag he

/-- The grammar `S -> a | b`. -/
def choice : Grammar :=
  ⟨.ofList [("S", .none)], .ofList [("a", .none), ("b", .none)],
    .ofList [("S", .ofList [(⟨["a"]⟩, .none), (⟨["b"]⟩, .none)])], "S"⟩

theorem built_choice : choice.Built :=
  .ofData (show Grammar.ofData choice.toData = .ok choice by decide)

/-- Neither to add the rule again nor to take the emphasis away saves it. -/
theorem removal_takes_effect_choice :
    ∃ g₁ g₂, (removeRule ⟨"S", ⟨["b"]⟩⟩).apply choice = (.ok (), g₁) ∧
      finalize.apply (Edit.performAll Operation.edit [.addRule "S" ⟨["b"]⟩, .clearTags] g₁)
        = (.ok (), g₂) ∧ ¬g₂.Has (.rule ⟨"S", ⟨["b"]⟩⟩) := by
  obtain ⟨g₁, hremoved, hgone, -⟩ := removal_takes_effect built_choice
    (show choice.tag? (.rule ⟨"S", ⟨["b"]⟩⟩) = some .none by decide)
  have heq : g₁ = ((removeRule ⟨"S", ⟨["b"]⟩⟩).apply choice).2 := (congrArg Prod.snd hremoved).symm
  have hfinalize : ∃ g₂, finalize.apply
      (Edit.performAll Operation.edit [.addRule "S" ⟨["b"]⟩, .clearTags] g₁) = (.ok (), g₂) := by
    rw [heq]
    exact ⟨_, Prod.ext (by decide) rfl⟩
  obtain ⟨g₂, hfinalize⟩ := hfinalize
  refine ⟨g₁, g₂, hremoved, hfinalize, hgone (by decide) _ ?_ g₂ hfinalize⟩
  rintro op hop rfl
  simp at hop

/-- What was added in the step under way is still there after it was removed. -/
theorem removal_leaves_new :
    ¬∀ (g g₁ g₂ : Grammar) (e : GrammarEntry) (ops : List Operation), g.Built → g.Has e →
      e.removal.edit.apply g = (.ok (), g₁) → (∀ op ∈ ops, op ≠ .finalize) →
        finalize.apply (Edit.performAll Operation.edit ops g₁) = (.ok (), g₂) → ¬g₂.Has e := by
  intro hall
  -- The symbol is both added and removed in one step.
  have hbuilt := built_choice.edit (.addSymbol "A")
  exact hall _ _ _ (.nonterminal "A") [] hbuilt ⟨.new, by decide⟩ (Prod.ext (by decide) rfl)
    (by simp) (Prod.ext (by decide) rfl) ⟨.none, by decide⟩

end Grammar

end Chronicle
