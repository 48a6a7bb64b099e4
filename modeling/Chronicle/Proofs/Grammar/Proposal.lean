import Chronicle.Proofs.Grammar.Entries
import Mathlib.Data.Set.Insert
/-!
Proposals, and making them true.

`Proposes g g' doomed` says what edits that mark and remove entries make of a grammar: it has the
entries that it had, and those of `doomed` have come to be removed.  Single edits propose, and so
do edits one after the other.  Nothing must be tagged `new` for that, since such an entry would
stay new (`Tag.resolve`).

An `Intact` grammar is what is left when proposals are made true: nothing is proposed any more, and
what is mentioned is there.  `finalize` leads from a grammar whose future is closed to an intact
one with that outline.
-/

namespace Chronicle

namespace Tag

/-- The outcome of an offer to an entry that is not new. -/
theorem resolve_ne_new {present candidate : Tag} (h : present ≠ .new) (h' : candidate ≠ .new) :
    present.resolve candidate ≠ .new := by
  unfold resolve
  split
  · exact h
  · split
    · exact h'
    · split
      · exact h
      · exact h'

theorem resolve_eq_removed {present candidate : Tag} (h : present ≠ .new) :
    present.resolve candidate = .removed ↔ present = .removed ∨ candidate = .removed := by
  unfold resolve
  split
  · simp_all
  · split
    · simp_all
    · rw [if_neg (fun hc => h hc.1)]
      simp_all

theorem decay_ne_removed (tag : Tag) : tag.decay ≠ .removed := by cases tag <;> decide

theorem decay_ne_new (tag : Tag) : tag.decay ≠ .new := by cases tag <;> decide

end Tag

namespace Grammar

variable {g g' g'' : Grammar} {name : String} {key : RuleKey} {tag : Tag} {e : GrammarEntry}
  {doomed doomed' : Set GrammarEntry}

/-! ### Proposing -/

/-- No entry was added in the step under way. -/
def Old (g : Grammar) : Prop := ∀ e, g.tag? e ≠ some .new

/-- From `g` to `g'` entries were marked, and those of `doomed` that are there were removed. -/
structure Proposes (g g' : Grammar) (doomed : Set GrammarEntry) : Prop where
  start : g'.start = g.start
  has : ∀ e, g'.Has e ↔ g.Has e
  removed : ∀ e, g'.tag? e = some .removed ↔ g.tag? e = some .removed ∨ g.Has e ∧ e ∈ doomed
  old : g'.Old

namespace Proposes

theorem refl (hold : g.Old) : Proposes g g ∅ :=
  ⟨rfl, fun _ => .rfl, by simp, hold⟩

theorem trans (h : Proposes g g' doomed) (h' : Proposes g' g'' doomed') :
    Proposes g g'' (doomed ∪ doomed') := by
  refine ⟨h'.start.trans h.start, fun e => (h'.has e).trans (h.has e), fun e => ?_, h'.old⟩
  rw [h'.removed, h.removed, h.has, Set.mem_union, or_assoc, ← and_or_left]

theorem outline_eq (h : Proposes g g' doomed) : g'.outline = g.outline := by
  rw [outline, outline, h.start]
  congr 1
  ext e
  exact h.has e

/-- What is proposed for an intact grammar is all that is removed of it. -/
theorem future_eq (h : Proposes g g' doomed) (hg : ∀ e, g.tag? e ≠ some .removed) :
    g'.future = .ofEntries g.start {e | g.Has e ∧ e ∉ doomed} := by
  rw [future, h.start]
  congr 1
  ext e
  constructor
  · intro hmem
    obtain ⟨tag, htag, hne⟩ := hmem
    have hhas : g.Has e := (h.has e).mp ⟨tag, htag⟩
    refine ⟨hhas, fun hdoomed => hne ?_⟩
    have hremoved := (h.removed e).mpr (.inr ⟨hhas, hdoomed⟩)
    exact Option.some.inj (htag.symm.trans hremoved)
  · intro hmem
    obtain ⟨hhas, hdoomed⟩ := hmem
    obtain ⟨tag, htag⟩ := (h.has e).mpr hhas
    refine ⟨tag, htag, ?_⟩
    intro heq
    subst heq
    rcases (h.removed e).mp htag with hc | ⟨-, hc⟩
    · exact hg e hc
    · exact hdoomed hc

/-- A tag that is offered to one entry. -/
theorem offer {present : Tag} (hold : g.Old) (he : g.tag? e = some present) (hnew : tag ≠ .new)
    (htag : ∀ e', g'.tag? e' = if e' = e then some (present.resolve tag) else g.tag? e')
    (hstart : g'.start = g.start) :
    Proposes g g' {e' | tag = .removed ∧ e' = e} := by
  have hpresent : present ≠ .new := fun hc => hold e (hc ▸ he)
  refine ⟨hstart, fun e' => ?_, fun e' => ?_, fun e' => ?_⟩
  · rw [Has, htag]
    by_cases heq : e' = e
    · rw [if_pos heq, heq]
      exact ⟨fun _ => ⟨present, he⟩, fun _ => ⟨_, rfl⟩⟩
    · rw [if_neg heq]
      rfl
  · rw [htag]
    by_cases heq : e' = e
    · rw [if_pos heq, heq, Option.some.injEq, Tag.resolve_eq_removed hpresent, he, Has, he]
      simp
    · rw [if_neg heq]
      simp [heq]
  · rw [htag]
    by_cases heq : e' = e
    · rw [if_pos heq]
      exact fun hc => Tag.resolve_ne_new hpresent hnew (Option.some.inj hc)
    · rw [if_neg heq]
      exact hold e'

/-- The removal of one entry. -/
theorem offer_removed {present : Tag} (hold : g.Old) (he : g.tag? e = some present)
    (htag : ∀ e', g'.tag? e' = if e' = e then some (present.resolve .removed) else g.tag? e')
    (hstart : g'.start = g.start) : Proposes g g' {e} := by
  have hoffer := offer hold he (by simp) htag hstart
  have hset : {e' : GrammarEntry | Tag.removed = .removed ∧ e' = e} = {e} := by
    ext e'
    simp
  rwa [hset] at hoffer

/-- Any other tag for one entry. -/
theorem offer_other {present : Tag} (hold : g.Old) (he : g.tag? e = some present)
    (hremoved : tag ≠ .removed) (hnew : tag ≠ .new)
    (htag : ∀ e', g'.tag? e' = if e' = e then some (present.resolve tag) else g.tag? e')
    (hstart : g'.start = g.start) : Proposes g g' ∅ := by
  have hoffer := offer hold he hnew htag hstart
  have hset : {e' : GrammarEntry | tag = .removed ∧ e' = e} = ∅ := by
    ext e'
    simp [hremoved]
  rwa [hset] at hoffer

end Proposes

/-! ### Single edits -/

theorem apply_discard_markSymbol_nonterminal {present : Tag}
    (h : g.tag? (.nonterminal name) = some present) (tag : Tag) :
    (discard (markSymbol name tag)).apply g
      = (.ok (), { g with nonterminals := g.nonterminals.insert name (present.resolve tag) }) := by
  rw [Edit.apply_discard, markSymbol, Edit.apply_atomic,
    show g.nonterminals.get? name = some present from h]
  rfl

theorem apply_discard_markSymbol_terminal {present : Tag}
    (hn : g.tag? (.nonterminal name) = none) (h : g.tag? (.terminal name) = some present)
    (tag : Tag) :
    (discard (markSymbol name tag)).apply g
      = (.ok (), { g with terminals := g.terminals.insert name (present.resolve tag) }) := by
  rw [Edit.apply_discard, markSymbol, Edit.apply_atomic,
    show g.nonterminals.get? name = none from hn,
    show g.terminals.get? name = some present from h]
  rfl

theorem removeSymbol_of_unknown (hn : g.tag? (.nonterminal name) = none)
    (ht : g.tag? (.terminal name) = none) :
    (removeSymbol name).apply g = (.error (.unknownSymbol name), g) := by
  rw [removeSymbol, Edit.apply_discard, markSymbol, Edit.apply_atomic,
    show g.nonterminals.get? name = none from hn, show g.terminals.get? name = none from ht]
  rfl

theorem apply_markRule {present : Tag} (h : g.tag? (.rule key) = some present) (tag : Tag) :
    (markRule key tag).apply g
      = (.ok (present.resolve tag), g.withRule key (present.resolve tag)) := by
  rw [markRule, Edit.apply_atomic, show g.ruleTag? key = some present from h]

theorem removeRule_of_tag {present : Tag} (h : g.tag? (.rule key) = some present) :
    (removeRule key).apply g = (.ok (), g.withRule key (present.resolve .removed)) := by
  rw [removeRule, Edit.apply_discard, apply_markRule h]
  rfl

theorem removeRule_of_unknown (h : g.tag? (.rule key) = none) :
    (removeRule key).apply g = (.error (.unknownRule key), g) := by
  rw [removeRule, Edit.apply_discard, markRule, Edit.apply_atomic,
    show g.ruleTag? key = none from h]
  rfl

theorem proposes_markSymbol (hold : g.Old) (hname : g.containsSymbol name = true)
    (hremoved : tag ≠ .removed) (hnew : tag ≠ .new) :
    ∃ g', (discard (markSymbol name tag)).apply g = (.ok (), g') ∧ Proposes g g' ∅ := by
  cases hn : g.tag? (.nonterminal name) with
  | some present =>
      exact ⟨_, apply_discard_markSymbol_nonterminal hn tag,
        .offer_other hold hn hremoved hnew (tag?_insert_nonterminal g name _) rfl⟩
  | none =>
      have ht : g.Has (.terminal name) := by
        rcases containsSymbol_iff.mp hname with ⟨present, h⟩ | h
        · simp [h] at hn
        · exact h
      obtain ⟨present, ht⟩ := ht
      exact ⟨_, apply_discard_markSymbol_terminal hn ht tag,
        .offer_other hold ht hremoved hnew (tag?_insert_terminal g name _) rfl⟩

theorem proposes_removeSymbol (hold : g.Old) (hname : name ∈ g.outline.nonterminals) :
    ∃ g', (removeSymbol name).apply g = (.ok (), g') ∧ Proposes g g' {.nonterminal name} := by
  obtain ⟨present, hn⟩ := hname
  exact ⟨_, apply_discard_markSymbol_nonterminal hn .removed,
    .offer_removed hold hn (tag?_insert_nonterminal g name _) rfl⟩

theorem proposes_markRule (hold : g.Old) (hkey : key ∈ g.outline.rules)
    (hremoved : tag ≠ .removed) (hnew : tag ≠ .new) :
    ∃ carried g', (markRule key tag).apply g = (.ok carried, g') ∧ Proposes g g' ∅ := by
  obtain ⟨present, hk⟩ := hkey
  exact ⟨_, _, apply_markRule hk tag,
    .offer_other hold hk hremoved hnew (tag?_withRule g key _) rfl⟩

theorem proposes_removeRule (hold : g.Old) (hkey : key ∈ g.outline.rules) :
    ∃ g', (removeRule key).apply g = (.ok (), g') ∧ Proposes g g' {.rule key} := by
  obtain ⟨present, hk⟩ := hkey
  exact ⟨_, removeRule_of_tag hk, .offer_removed hold hk (tag?_withRule g key _) rfl⟩

theorem tag?_clearTags (g : Grammar) (e : GrammarEntry) :
    g.clearTags.tag? e = (g.tag? e).map (·.resolve .none) :=
  tag?_mapTags g _ e

theorem has_clearTags : g.clearTags.Has e ↔ g.Has e := by
  rw [Has, Has, tag?_clearTags]
  cases g.tag? e <;> simp

theorem proposes_clearTags (hold : g.Old) : Proposes g g.clearTags ∅ := by
  refine ⟨rfl, fun e => has_clearTags, fun e => ?_, fun e => ?_⟩
  · rw [tag?_clearTags]
    cases h : g.tag? e with
    | none => simp
    | some tag =>
        have hne : tag ≠ .new := fun hc => hold e (hc ▸ h)
        simp [Tag.resolve_eq_removed hne]
  · rw [tag?_clearTags]
    cases h : g.tag? e with
    | none => simp
    | some tag =>
        have hne : tag ≠ .new := fun hc => hold e (hc ▸ h)
        simp [Tag.resolve_ne_new hne]

/-- Edits for the items of a list, one after the other. -/
theorem proposes_forM {α : Type} {f : α → Edit Grammar Unit} (doom : α → Set GrammarEntry)
    (l : List α) (hold : g.Old) (hstep : ∀ a ∈ l, ∀ g₁ : Grammar, g₁.Old → g₁.outline = g.outline →
      ∃ g₂, (f a).apply g₁ = (.ok (), g₂) ∧ Proposes g₁ g₂ (doom a)) :
    ∃ g', (l.forM f).apply g = (.ok (), g') ∧ Proposes g g' {e | ∃ a ∈ l, e ∈ doom a} := by
  induction l generalizing g with
  | nil =>
      refine ⟨g, rfl, ?_⟩
      simpa using Proposes.refl hold
  | cons a l ih =>
      obtain ⟨g₁, hfirst, hproposes⟩ := hstep a List.mem_cons_self g hold rfl
      have hrest : ∀ b ∈ l, ∀ g₂ : Grammar, g₂.Old → g₂.outline = g₁.outline →
          ∃ g₃, (f b).apply g₂ = (.ok (), g₃) ∧ Proposes g₂ g₃ (doom b) := fun b hb g₂ hold₂ heq =>
        hstep b (List.mem_cons_of_mem _ hb) g₂ hold₂ (heq.trans hproposes.outline_eq)
      obtain ⟨g', hall, hproposes'⟩ := ih hproposes.old hrest
      refine ⟨g', ?_, ?_⟩
      · rw [List.forM, Edit.apply_bind_of_ok hfirst]
        exact hall
      · have hboth := hproposes.trans hproposes'
        have hset : doom a ∪ {e | ∃ b ∈ l, e ∈ doom b} = {e | ∃ b ∈ a :: l, e ∈ doom b} := by
          ext e
          simp
        rwa [hset] at hboth

/-! ### Making the proposals true -/

theorem missingSymbol?_eq_none {key : RuleKey} : g.missingSymbol? key = none ↔
    ∀ s ∈ key.left :: key.right.symbols,
      s ∈ g.outline.nonterminals ∨ s ∈ g.outline.terminals := by
  rw [missingSymbol?, List.find?_eq_none]
  simp only [Bool.not_eq_true', Bool.not_eq_false, containsSymbol_iff]

/-- The groups of rules, one after the other, have the keys of all rules. -/
theorem mem_groups_iff {key : RuleKey} :
    (∃ group ∈ g.rules.toList, ∃ right ∈ group.2.keys, RuleKey.mk group.1 right = key) ↔
      key ∈ g.outline.rules := by
  constructor
  · intro ⟨group, hgroup, right, hright, hkey⟩
    subst hkey
    obtain ⟨tag, htag⟩ := SortedMap.mem_keys_iff.mp hright
    exact ⟨tag, ruleTag?_eq_some.mpr ⟨group.2, SortedMap.get?_eq_some_iff.mpr hgroup, htag⟩⟩
  · intro ⟨tag, h⟩
    obtain ⟨group, hgroup, hright⟩ := ruleTag?_eq_some.mp h
    exact ⟨(key.left, group), SortedMap.get?_eq_some_iff.mp hgroup, key.right,
      SortedMap.mem_keys_iff.mpr ⟨tag, hright⟩, rfl⟩

/-- The look at all references succeeds exactly if none is dangling. -/
theorem checkReferences_eq_ok : g.checkReferences = .ok () ↔
    g.start ∈ g.outline.nonterminals ∧ ∀ key ∈ g.outline.rules,
      ∀ s ∈ key.left :: key.right.symbols,
        s ∈ g.outline.nonterminals ∨ s ∈ g.outline.terminals := by
  unfold checkReferences
  by_cases hstart : g.hasNonterminal g.start = true
  · rw [if_neg (by simp [hstart])]
    simp only [hasNonterminal_iff.mp hstart, true_and]
    split
    · next symbol key hfound =>
        -- The key that is found is the key of a rule, and that rule mentions a symbol that is gone.
        obtain ⟨key, hkey, hmissing⟩ := List.exists_of_findSome?_eq_some hfound
        simp only [List.mem_flatMap, List.mem_map] at hkey
        have hnot : g.missingSymbol? key ≠ none := by
          intro hnone
          simp [hnone] at hmissing
        simp only [reduceCtorEq, false_iff]
        exact fun h => hnot (missingSymbol?_eq_none.mpr (h key (mem_groups_iff.mp hkey)))
    · next hnone =>
        rw [List.findSome?_eq_none_iff] at hnone
        simp only [true_iff]
        intro key hkey
        refine missingSymbol?_eq_none.mp (Option.map_eq_none_iff.mp (hnone key ?_))
        simp only [List.mem_flatMap, List.mem_map]
        exact mem_groups_iff.mpr hkey
  · rw [if_pos (by simpa using hstart)]
    have hnot : g.start ∉ g.outline.nonterminals := fun hc => hstart (hasNonterminal_iff.mpr hc)
    simp [hnot]

theorem checkReferences_of_closed (h : g.outline.Closed) : g.checkReferences = .ok () := by
  refine checkReferences_eq_ok.mpr ⟨h.start, fun key hkey s hs => ?_⟩
  rcases List.mem_cons.mp hs with rfl | hs
  · exact .inl (h.left key hkey)
  · exact h.right key hkey s hs

/-- What was to be removed is gone. -/
theorem settled_not_removed (g : Grammar) (e : GrammarEntry) : g.settled.tag? e ≠ some .removed := by
  rw [tag?_settled]
  intro hc
  obtain ⟨tag, -, htag⟩ := Option.map_eq_some_iff.mp hc
  exact tag.decay_ne_removed htag

/-- What was new has faded. -/
theorem settled_old (g : Grammar) : g.settled.Old := by
  intro e hc
  rw [tag?_settled] at hc
  obtain ⟨tag, -, htag⟩ := Option.map_eq_some_iff.mp hc
  exact tag.decay_ne_new htag

/-- A grammar for which nothing is proposed and in which no reference is dangling. -/
structure Intact (g : Grammar) : Prop where
  named : g.outline.Named
  closed : g.outline.Closed
  settled : g.settled = g

namespace Intact

theorem dense (h : g.Intact) : g.Dense := h.settled ▸ dense_settled g

theorem tag?_eq_decay (h : g.Intact) (e : GrammarEntry) :
    g.tag? e = ((g.tag? e).filter (· ≠ .removed)).map Tag.decay := by
  conv_lhs => rw [← h.settled]
  exact tag?_settled g e

theorem not_removed (h : g.Intact) (e : GrammarEntry) : g.tag? e ≠ some .removed :=
  h.settled ▸ settled_not_removed g e

theorem old (h : g.Intact) : g.Old := h.settled ▸ settled_old g

theorem future_eq (h : g.Intact) : g.future = g.outline := future_eq_outline h.not_removed

end Intact

/-- A grammar in which the names fit, no reference is dangling and no left side is without a rule.
Anything may be proposed for it. -/
structure Sound (g : Grammar) : Prop where
  named : g.outline.Named
  closed : g.outline.Closed
  dense : g.Dense

theorem Intact.sound (h : g.Intact) : g.Sound := ⟨h.named, h.closed, h.dense⟩

/-- Settling once is enough. -/
theorem settled_settled (g : Grammar) : g.settled.settled = g.settled := by
  refine ext_tag? (dense_settled _) (dense_settled _) rfl fun e => ?_
  rw [tag?_settled, tag?_settled]
  cases g.tag? e with
  | none => rfl
  | some tag =>
      by_cases h : tag = .removed
      · simp [Option.filter_some, h]
      · simp [Option.filter_some, h, Tag.decay_ne_removed]

theorem future_named (h : g.outline.Named) : g.future.Named := by
  refine ⟨?_, ?_, ?_⟩
  · exact fun s ⟨tag, htag, _⟩ => h.nonterminal s ⟨tag, htag⟩
  · exact fun s ⟨tag, htag, _⟩ => h.terminal s ⟨tag, htag⟩
  · exact fun key ⟨tag, htag, _⟩ => h.left key ⟨tag, htag⟩

theorem apply_finalize (g : Grammar) :
    finalize.apply g = (g.settled.checkReferences, g.settled) := by
  rw [finalize, Edit.apply_bind_of_ok (Edit.apply_modify _ _), Edit.apply_reading]

theorem finalize_of_check (h : g.settled.checkReferences = .ok ()) :
    finalize.apply g = (.ok (), g.settled) := by
  rw [apply_finalize, h]

/-- Finalizing a grammar whose future is closed succeeds and leads there. -/
theorem finalize_of_closed (hnamed : g.outline.Named) (hclosed : g.future.Closed) :
    finalize.apply g = (.ok (), g.settled) ∧ g.settled.Intact := by
  have hcheck : g.settled.checkReferences = .ok () := by
    refine checkReferences_of_closed ?_
    rw [outline_settled]
    exact hclosed
  refine ⟨?_, ?_, ?_, settled_settled g⟩
  · exact finalize_of_check hcheck
  · rw [outline_settled]
    exact future_named hnamed
  · rw [outline_settled]
    exact hclosed

/-- A grammar that was finalized is intact. -/
theorem intact_of_finalize (hnamed : g.outline.Named) (h : finalize.apply g = (.ok (), g')) :
    g' = g.settled ∧ g'.Intact := by
  rw [apply_finalize] at h
  obtain ⟨hcheck, rfl⟩ := Prod.mk.inj h
  have hnamed' : g.settled.outline.Named := by
    rw [outline_settled]
    exact future_named hnamed
  obtain ⟨hstart, hrefs⟩ := checkReferences_eq_ok.mp hcheck
  refine ⟨rfl, hnamed', ⟨hstart, fun key hkey => ?_, fun key hkey s hs => ?_⟩, settled_settled g⟩
  · -- The name of a left side is that of a nonterminal, so it cannot be a terminal.
    rcases hrefs key hkey key.left List.mem_cons_self with hn | ht
    · exact hn
    · have hkind := (hnamed'.left key hkey).symm.trans (hnamed'.terminal _ ht)
      simp at hkind
  · exact hrefs key hkey s (List.mem_cons_of_mem _ hs)

theorem Intact.finalize_eq (h : g.Intact) : finalize.apply g = (.ok (), g) := by
  have hclosed : g.future.Closed := by
    rw [h.future_eq]
    exact h.closed
  have hfinalize := (finalize_of_closed h.named hclosed).1
  rwa [h.settled] at hfinalize

end Grammar

end Chronicle
