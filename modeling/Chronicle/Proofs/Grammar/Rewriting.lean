import Chronicle.Proofs.Grammar.Integrity
/-!
What the tags of a rewritten grammar tell.

A program that only proposes never takes an entry away, and it never calls an entry new that was
there before: a tag is offered, and no offer makes an entry new that was not (`Tag.resolve`).  So of
a grammar that is rewritten the tags tell how it began (`TellsStart`), as soon as nothing is called
new in what it began on.  Making the proposals true deletes what is tagged removed and nothing
else, and all other tags fade; so the tags also tell how the step ends (`TellsEnd`).

That nothing is called new at the beginning is because it comes from an archive.  Which tags there
are is not changed by writing a grammar to plain data or by reading it (`Tagged`), and in an archive
they have faded.
-/

namespace Chronicle

namespace Tag

/-- The tags that are left when all have faded. -/
def lasting : List Tag := [none, attentionPersistent, attentionWasSet, specialPersistent]

theorem decay_mem_lasting (tag : Tag) : tag.decay ∈ lasting := by cases tag <;> decide

theorem new_not_mem_lasting : new ∉ lasting := by decide

/-- No other offer makes an entry new. -/
theorem eq_new_of_resolve {present candidate : Tag} (hcandidate : candidate ≠ new)
    (h : present.resolve candidate = new) : present = new := by
  by_contra hne
  exact resolve_ne_new hne hcandidate h

end Tag

namespace Grammar

variable {g g' g'' : Grammar} {e : GrammarEntry} {tag : Tag} {ok : Tag → Prop}

/-! ### Rewriting -/

/-- The operation is one that rewrites: it proposes, and does not mark anything as new. -/
def Operation.Rewrites (op : Operation) : Prop := op.Within (· ≠ .new)

/-- The one grammar becomes the other by operations that rewrite, whether they succeed or not. -/
def Rewritten (g g' : Grammar) : Prop :=
  ∃ ops : List Operation, (∀ op ∈ ops, op.Rewrites) ∧ g' = Edit.performAll Operation.edit ops g

namespace Rewritten

theorem refl (g : Grammar) : Rewritten g g := ⟨[], by simp, rfl⟩

theorem trans (h : Rewritten g g') (h' : Rewritten g' g'') : Rewritten g g'' := by
  obtain ⟨ops, hops, rfl⟩ := h
  obtain ⟨ops', hops', rfl⟩ := h'
  refine ⟨ops ++ ops', fun op hop => ?_, ?_⟩
  · exact (List.mem_append.mp hop).elim (hops op) (hops' op)
  · rw [Edit.performAll, Edit.performAll, Edit.performAll, List.foldl_append]

/-- Rewriting keeps what withstands all offers but that to be new. -/
theorem keeps {inv : Grammar → Prop} (hinv : Withstands (· ≠ .new) inv) (h : Rewritten g g')
    (hg : inv g) : inv g' := by
  obtain ⟨ops, hops, rfl⟩ := h
  exact Edit.Keeps.performAll
    (fun op hop => hinv.keeps (by simp) (by simp) (by simp) (hops op hop)) hg

theorem sound (h : Rewritten g g') (hg : g.Sound) : g'.Sound :=
  h.keeps (stable_sound.withstands _) hg

end Rewritten

/-- What `g` has is in `g'`, and is called new there only if it was. -/
structure Enlarges (g g' : Grammar) : Prop where
  has : ∀ e, g.Has e → g'.Has e
  new : ∀ e, g.Has e → g'.tag? e = some .new → g.tag? e = some .new

theorem Enlarges.refl (g : Grammar) : Enlarges g g := ⟨fun _ he => he, fun _ _ h => h⟩

theorem Enlarges.trans (h : Enlarges g g') (h' : Enlarges g' g'') : Enlarges g g'' :=
  ⟨fun e he => h'.has e (h.has e he), fun e he hnew => h.new e he (h'.new e (h.has e he) hnew)⟩

/-- An entry that was there gets a tag that does not call it new, unless it was. -/
theorem Enlarges.put (h : ∀ present, g.tag? e = some present → tag = .new → present = .new) :
    Enlarges g (g.put e tag) := by
  refine ⟨fun e' he' => has_put.mpr (.inr he'), fun e' he' hnew => ?_⟩
  rw [tag?_put] at hnew
  split at hnew
  · next heq =>
      subst heq
      obtain ⟨present, hpresent⟩ := he'
      rw [hpresent, h present hpresent (Option.some.inj hnew)]
  · exact hnew

theorem Offers.enlarges (h : Offers (· ≠ .new) g g') : Enlarges g g' := by
  cases h with
  | @offer e present tag hpresent hok =>
      refine .put fun present' hpresent' hnew => ?_
      obtain rfl : present = present' := Option.some.inj (hpresent.symm.trans hpresent')
      exact Tag.eq_new_of_resolve hok hnew
  | add hadmits habsent => exact .put fun present hpresent => absurd ⟨present, hpresent⟩ habsent
  | restart hname =>
      exact ⟨fun e he => by cases e <;> exact he, fun e _ h => by cases e <;> exact h⟩
  | clear =>
      refine ⟨fun e he => has_clearTags.mpr he, fun e _ hnew => ?_⟩
      rw [tag?_clearTags] at hnew
      obtain ⟨tag, htag, hnew⟩ := Option.map_eq_some_iff.mp hnew
      rw [htag, Tag.eq_new_of_resolve (by simp) hnew]

theorem Rewritten.enlarges (h : Rewritten g g') : Enlarges g g' :=
  h.keeps (fun _ _ hg hoffers => hg.trans hoffers.enlarges) (.refl g)

/-! ### What is told -/

/-- The tags of `r` tell how the step began on `a`: all that was there is still to be seen, and what
is called new was not there. -/
structure TellsStart (a r : Grammar) : Prop where
  kept : ∀ e, a.Has e → r.Has e
  new : ∀ e, r.tag? e = some .new → ¬a.Has e

/-- The tags of `r` tell how the step ends with `b`: what is not there any more is what is called
removed, nothing is there that cannot be seen in `r`, and only lasting tags are left. -/
structure TellsEnd (r b : Grammar) : Prop where
  removed : ∀ e, r.Has e → (¬b.Has e ↔ r.tag? e = some .removed)
  seen : ∀ e, b.Has e → r.Has e
  lasting : ∀ e tag, b.tag? e = some tag → tag ∈ Tag.lasting

/-- All tags of the grammar are `ok`. -/
def Tagged (ok : Tag → Prop) (g : Grammar) : Prop := ∀ e tag, g.tag? e = some tag → ok tag

theorem tagged_settled (g : Grammar) : g.settled.Tagged (· ∈ Tag.lasting) := by
  intro e tag htag
  rw [tag?_settled] at htag
  obtain ⟨present, -, rfl⟩ := Option.map_eq_some_iff.mp htag
  exact present.decay_mem_lasting

theorem tellsEnd_settled (g : Grammar) : TellsEnd g g.settled where
  removed e he := by
    obtain ⟨tag, htag⟩ := he
    rw [has_settled, htag]
    simp
  seen e he := by
    obtain ⟨tag, htag, -⟩ := has_settled.mp he
    exact ⟨tag, htag⟩
  lasting := tagged_settled g

theorem Rewritten.tellsStart (h : Rewritten g g') (hg : g.Tagged (· ∈ Tag.lasting)) :
    TellsStart g g' where
  kept := h.enlarges.has
  new e hnew he := Tag.new_not_mem_lasting (hg e .new (h.enlarges.new e he hnew))

/-! ### Tags in plain data -/

theorem Tagged.put (h : g.Tagged ok) (htag : ok tag) : (g.put e tag).Tagged ok := by
  intro e' tag' htag'
  rw [tag?_put] at htag'
  split at htag'
  · obtain rfl := Option.some.inj htag'
    exact htag
  · exact h e' tag' htag'

theorem Tagged.withSymbol {name : String} {expected : Option SymbolKind} (h : g.Tagged ok)
    (htag : ok tag) (heq : g.withSymbol name tag expected = .ok g') : g'.Tagged ok := by
  obtain ⟨kind, -, -, rfl⟩ := withSymbol_eq_ok heq
  exact h.put htag

end Grammar

/-- All tags in the data are `ok`. -/
structure GrammarData.Tagged (ok : Tag → Prop) (data : GrammarData) : Prop where
  nonterminal : ∀ pair ∈ data.nonterminals.toList, ok pair.2
  terminal : ∀ pair ∈ data.terminals.toList, ok pair.2
  rule : ∀ group ∈ data.rules.toList, ∀ pair ∈ group.2.toList, ok pair.2

namespace Grammar

variable {g g' : Grammar} {tag : Tag} {ok : Tag → Prop}

/-- Writing down a grammar invents no tags. -/
theorem Tagged.toData (h : g.Tagged ok) : g.toData.Tagged ok where
  nonterminal pair hpair := h (.nonterminal pair.1) pair.2 (SortedMap.get?_eq_some_iff.mpr hpair)
  terminal pair hpair := h (.terminal pair.1) pair.2 (SortedMap.get?_eq_some_iff.mpr hpair)
  rule texts htexts pair hpair := by
    have hgroup : g.toData.rules.get? texts.1 = some texts.2 :=
      SortedMap.get?_eq_some_iff.mpr htexts
    rw [Grammar.toData, SortedMap.get?_mapValues, SortedMap.get?_filter] at hgroup
    obtain ⟨group, hfilter, hgroup⟩ := Option.map_eq_some_iff.mp hgroup
    have hget := (Option.filter_eq_some_iff.mp hfilter).1
    have hlook : texts.2.get? pair.1 = some pair.2 := SortedMap.get?_eq_some_iff.mpr hpair
    -- Several words may have one text; the tag is that of one of them.
    rw [← hgroup, SortedMap.get?_ofList] at hlook
    obtain ⟨found, hfind, hsame⟩ := Option.map_eq_some_iff.mp hlook
    have hmem := List.mem_of_find?_eq_some hfind
    rw [List.mem_reverse, List.mem_map] at hmem
    obtain ⟨⟨right, tag⟩, hright, rfl⟩ := hmem
    rw [← hsame]
    exact h (.rule ⟨texts.1, right⟩) tag
      (ruleTag?_eq_some.mpr ⟨group, hget, SortedMap.get?_eq_some_iff.mpr hright⟩)

/-- Reading a grammar invents no tags. -/
theorem tagged_of_ofData {data : GrammarData} (hdata : data.Tagged ok) (h : ofData data = .ok g) :
    g.Tagged ok := by
  obtain ⟨g₁, hnonterminals, h⟩ := exists_of_bind_eq_ok h
  obtain ⟨g₂, hterminals, h⟩ := exists_of_bind_eq_ok h
  obtain ⟨_, -, hrules⟩ := exists_of_bind_eq_ok h
  have hempty : Tagged ok ⟨.empty, .empty, .empty, data.start⟩ := by
    intro e tag htag
    cases e <;> simp [tag?, ruleTag?] at htag
  have h₁ : g₁.Tagged ok := inv_of_foldlM_of_mem _ hempty
    (fun _ pair hpair _ hb heq => hb.withSymbol (hdata.nonterminal pair hpair) heq) hnonterminals
  have h₂ : g₂.Tagged ok := inv_of_foldlM_of_mem _ h₁
    (fun _ pair hpair _ hb heq => hb.withSymbol (hdata.terminal pair hpair) heq) hterminals
  refine inv_of_foldlM_of_mem _ h₂ (fun _ group hgroup _ hb heq => ?_) hrules
  obtain ⟨_, -, heq⟩ := exists_of_bind_eq_ok heq
  refine inv_of_foldlM_of_mem _ hb (fun _ pair hpair _ hb heq => ?_) heq
  obtain ⟨_, -, heq⟩ := exists_of_bind_eq_ok heq
  obtain rfl := Except.ok.inj heq
  exact hb.put (e := .rule _) (hdata.rule group hgroup pair hpair)

end Grammar

end Chronicle
