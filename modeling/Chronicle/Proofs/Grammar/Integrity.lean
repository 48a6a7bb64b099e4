import Chronicle.Proofs.Grammar.Built
/-!
The integrity of grammars.

A grammar is sound exactly if its start symbol is a nonterminal, it would admit every entry that it
has, and no left side is without a rule (`sound_iff`).  Said this way it is plain that moves keep
it.  Loading first takes in the symbols, when there are no rules to mention anything, and then the
rules; a successful finalizing has looked at all references.  So every grammar that is attained is
sound, and what its look-ups and listings give fits together (`Consistent`).
-/

namespace Chronicle

namespace Grammar

variable {g g' : Grammar} {e : GrammarEntry}

/-! ### Soundness -/

theorem Knows.mono (hhas : ∀ e, g.Has e → g'.Has e) {name : String} (h : g.Knows name) :
    g'.Knows name :=
  h.imp (hhas (.nonterminal name)) (hhas (.terminal name))

theorem Admits.mono (hhas : ∀ e, g.Has e → g'.Has e) (h : g.Admits e) : g'.Admits e := by
  cases e with
  | nonterminal name => exact h
  | terminal name => exact h
  | rule key => exact ⟨hhas (.nonterminal key.left) h.1, fun s hs => (h.2 s hs).mono hhas⟩

theorem sound_iff : g.Sound ↔
    g.start ∈ g.outline.nonterminals ∧ (∀ e, g.Has e → g.Admits e) ∧ g.Dense := by
  constructor
  · intro h
    refine ⟨h.closed.start, fun e he => ?_, h.dense⟩
    cases e with
    | nonterminal name => exact h.named.nonterminal name he
    | terminal name => exact h.named.terminal name he
    | rule key => exact ⟨h.closed.left key he, h.closed.right key he⟩
  · intro h
    obtain ⟨hstart, hadmits, hdense⟩ := h
    refine ⟨⟨?_, ?_, ?_⟩, ⟨hstart, ?_, ?_⟩, hdense⟩
    · exact fun name hname => hadmits (.nonterminal name) hname
    · exact fun name hname => hadmits (.terminal name) hname
    · exact fun key hkey => hadmits (.nonterminal key.left) (hadmits (.rule key) hkey).1
    · exact fun key hkey => (hadmits (.rule key) hkey).1
    · exact fun key hkey => (hadmits (.rule key) hkey).2

theorem stable_sound : Stable Sound := by
  intro g g' h hmoves
  obtain ⟨hstart, hadmits, hdense⟩ := sound_iff.mp h
  refine sound_iff.mpr ?_
  cases hmoves with
  | @put e he tag =>
      have hhas : ∀ e', g.Has e' → (g.put e tag).Has e' := fun e' he' => has_put.mpr (.inr he')
      refine ⟨?_, fun e' he' => ?_, dense_put hdense e tag⟩
      · rw [start_put]
        exact hhas (.nonterminal g.start) hstart
      · rcases has_put.mp he' with rfl | he'
        · exact (he.elim (hadmits e') id).mono hhas
        · exact (hadmits e' he').mono hhas
  | @restart name hname =>
      have hhas : ∀ e', ({ g with start := name } : Grammar).Has e' ↔ g.Has e' := by
        intro e'
        cases e' <;> exact .rfl
      exact ⟨hname, fun e' he' => (hadmits e' ((hhas e').mp he')).mono fun e he => (hhas e).mpr he,
        hdense⟩
  | clear =>
      have hhas : ∀ e', g.Has e' → g.clearTags.Has e' := fun e' he' => has_clearTags.mpr he'
      exact ⟨hhas (.nonterminal g.start) hstart,
        fun e' he' => (hadmits e' (has_clearTags.mp he')).mono hhas, dense_mapTags hdense _⟩

/-! ### Loading -/

/-- Of what is to be loaded there are some symbols, and no rules. -/
structure OnlySymbols (start : String) (g : Grammar) : Prop where
  proper : g.Proper
  rules : g.rules = .empty
  start : g.start = start

namespace OnlySymbols

variable {start name : String} {tag : Tag} {expected : Option SymbolKind}

theorem empty (start : String) : OnlySymbols start ⟨.empty, .empty, .empty, start⟩ :=
  ⟨proper_empty start, rfl, rfl⟩

theorem withSymbol (h : OnlySymbols start g) (heq : g.withSymbol name tag expected = .ok g') :
    OnlySymbols start g' := by
  have hproper := stable_proper h.proper (moves_of_withSymbol heq)
  obtain ⟨kind, -, -, rfl⟩ := withSymbol_eq_ok heq
  refine ⟨hproper, ?_, start_put.trans h.start⟩
  cases kind <;> exact h.rules

/-- Once the start symbol is among them, the symbols make a sound grammar. -/
theorem sound (h : OnlySymbols start g) (hstart : start ∈ g.outline.nonterminals) : g.Sound := by
  have hnone : ∀ left, g.rules.get? left = none := by
    intro left
    rw [h.rules]
    rfl
  have hrule : ∀ key, ¬ g.Has (.rule key) := by
    intro key hkey
    obtain ⟨tag, htag⟩ := hkey
    obtain ⟨group, hgroup, -⟩ := ruleTag?_eq_some.mp htag
    simp [hnone] at hgroup
  refine sound_iff.mpr ⟨h.start ▸ hstart, fun e he => ?_, fun left group hgroup => ?_⟩
  · cases e with
    | nonterminal name => exact h.proper (.nonterminal name) he
    | terminal name => exact h.proper (.terminal name) he
    | rule key => exact absurd he (hrule key)
  · simp [hnone] at hgroup

end OnlySymbols

theorem sound_of_ofStart {start : String} (h : ofStart start = .ok g) : g.Sound := by
  refine (OnlySymbols.empty start |>.withSymbol h).sound ?_
  obtain ⟨kind, -, hkind, rfl⟩ := withSymbol_eq_ok h
  obtain rfl := hkind _ rfl
  exact has_put.mpr (.inl rfl)

theorem sound_of_ofData {data : GrammarData} (h : ofData data = .ok g) : g.Sound := by
  obtain ⟨g₁, hnonterminals, h⟩ := exists_of_bind_eq_ok h
  obtain ⟨g₂, hterminals, h⟩ := exists_of_bind_eq_ok h
  obtain ⟨_, hstart, hrules⟩ := exists_of_bind_eq_ok h
  have h₁ : OnlySymbols data.start g₁ := inv_of_foldlM_eq_ok _ (.empty data.start)
    (fun _ _ _ hb heq => hb.withSymbol heq) hnonterminals
  have h₂ : OnlySymbols data.start g₂ := inv_of_foldlM_eq_ok _ h₁
    (fun _ _ _ hb heq => hb.withSymbol heq) hterminals
  exact inv_of_foldlM_eq_ok Sound (h₂.sound (requireNonterminal_eq_ok.mp hstart))
    (fun _ _ _ hb heq => stable_sound.addArchivedGroup hb heq) hrules

/-! ### What is attained -/

/-- The grammars that are made or loaded, and changed by operations.  An operation may fail; after
a failed finalizing there is no grammar to go on with. -/
inductive Attained : Grammar → Prop
  | ofStart {g : Grammar} {start : String} (h : Grammar.ofStart start = .ok g) : Attained g
  | ofPlain {g : Grammar} {plain : PlainGrammar} (h : Grammar.ofPlain plain = .ok g) : Attained g
  | ofData {g : Grammar} {data : GrammarData} (h : Grammar.ofData data = .ok g) : Attained g
  | edit {g : Grammar} (h : Attained g) (op : Operation)
      (hfinalize : op = .finalize → (op.edit.apply g).1 = .ok ()) : Attained (op.edit.apply g).2

theorem Sound.edit (h : g.Sound) (op : Operation)
    (hfinalize : op = .finalize → (op.edit.apply g).1 = .ok ()) : (op.edit.apply g).2.Sound := by
  by_cases hop : op = .finalize
  · subst hop
    exact (intact_of_finalize h.named (Prod.ext (hfinalize rfl) rfl)).2.sound
  · exact stable_sound.keeps op hop g h

theorem Attained.sound (h : g.Attained) : g.Sound := by
  induction h with
  | ofStart h => exact sound_of_ofStart h
  | ofPlain h => exact sound_of_ofData h
  | ofData h => exact sound_of_ofData h
  | edit _ op hfinalize ih => exact ih.edit op hfinalize

/-! ### Look-ups and listings -/

theorem mem_symbolList_iff {symbol : Symbol} : symbol ∈ g.symbolList ↔
    g.tag? (.symbol symbol.kind symbol.name) = some symbol.tag := by
  obtain ⟨name, kind, tag⟩ := symbol
  rw [symbolList, List.mem_append, nonterminalList, terminalList, List.mem_map, List.mem_map]
  cases kind with
  | nonterminal =>
      constructor
      · rintro (⟨⟨x, t⟩, hmem, heq⟩ | ⟨⟨x, t⟩, hmem, heq⟩)
        · obtain ⟨rfl, -, rfl⟩ := Symbol.mk.inj heq
          exact mem_startingWith.mp hmem
        · simp at heq
      · exact fun h => .inl ⟨(name, tag), mem_startingWith.mpr h, rfl⟩
  | terminal =>
      constructor
      · rintro (⟨⟨x, t⟩, hmem, heq⟩ | ⟨⟨x, t⟩, hmem, heq⟩)
        · simp at heq
        · obtain ⟨rfl, -, rfl⟩ := Symbol.mk.inj heq
          exact SortedMap.get?_eq_some_iff.mpr hmem
      · exact fun h => .inr ⟨(name, tag), SortedMap.get?_eq_some_iff.mp h, rfl⟩

/-- Nonterminals are looked up first, but no terminal has the name of one. -/
theorem symbol?_eq_some_iff (h : g.outline.Named) {symbol : Symbol} :
    g.symbol? symbol.name = some symbol ↔
      g.tag? (.symbol symbol.kind symbol.name) = some symbol.tag := by
  obtain ⟨name, kind, tag⟩ := symbol
  rw [symbol?]
  cases hget : g.nonterminals.get? name with
  | some present =>
      have hterminal : g.terminals.get? name ≠ some tag := fun hc =>
        h.not_terminal ⟨present, hget⟩ ⟨tag, hc⟩
      cases kind with
      | nonterminal => simp [GrammarEntry.symbol, tag?, hget]
      | terminal => simp [GrammarEntry.symbol, tag?, hterminal]
  | none =>
      cases kind with
      | nonterminal => simp [GrammarEntry.symbol, tag?, hget]
      | terminal => simp [GrammarEntry.symbol, tag?]

theorem rule?_eq_some_iff {rule : Rule} :
    g.rule? rule.key = some rule ↔ g.ruleTag? rule.key = some rule.tag := by
  obtain ⟨key, tag⟩ := rule
  rw [rule?, Option.map_eq_some_iff]
  constructor
  · rintro ⟨tag', htag, heq⟩
    obtain ⟨-, rfl⟩ := Rule.mk.inj heq
    exact htag
  · exact fun h => ⟨tag, h, rfl⟩

theorem mem_ruleList_iff {rule : Rule} :
    rule ∈ g.ruleList ↔ g.ruleTag? rule.key = some rule.tag := by
  obtain ⟨⟨left, right⟩, tag⟩ := rule
  simp only [ruleList, groupRules, List.mem_flatMap, List.mem_map, ruleTag?_eq_some]
  constructor
  · rintro ⟨⟨x, group⟩, hgroup, ⟨y, t⟩, hright, heq⟩
    obtain ⟨hkey, rfl⟩ := Rule.mk.inj heq
    obtain ⟨rfl, rfl⟩ := RuleKey.mk.inj hkey
    exact ⟨group, mem_startingWith.mp hgroup, SortedMap.get?_eq_some_iff.mpr hright⟩
  · rintro ⟨group, hgroup, hright⟩
    exact ⟨(left, group), mem_startingWith.mpr hgroup, (right, tag),
      SortedMap.get?_eq_some_iff.mp hright, rfl⟩

theorem Dense.keys_toData (h : g.Dense) : g.toData.rules.keys = g.rules.keys := by
  rw [toData, h.filter_rules, SortedMap.keys, SortedMap.mapValues, List.map_map]
  rfl

/-- The start symbol, the symbols and the rules of the grammar fit together. -/
structure Consistent (g : Grammar) : Prop where
  /-- The start symbol is a nonterminal of the grammar. -/
  start : g.hasNonterminal g.start = true
  /-- What is listed as a symbol is what its name leads to. -/
  symbol : ∀ symbol, symbol ∈ g.symbolList ↔ g.symbol? symbol.name = some symbol
  /-- The name of a symbol dictates its kind. -/
  kind : ∀ symbol ∈ g.symbolList, SymbolKind.ofName? symbol.name = some symbol.kind
  /-- No name is both that of a nonterminal and that of a terminal. -/
  disjoint : ∀ name, g.nonterminals.contains name = true → g.terminals.contains name = false
  /-- What is listed as a rule is what its left and right side lead to. -/
  rule : ∀ rule, rule ∈ g.ruleList ↔ g.rule? rule.key = some rule
  /-- A rule has an existing nonterminal on its left. -/
  left : ∀ rule ∈ g.ruleList, g.hasNonterminal rule.key.left = true
  /-- A rule has existing symbols on its right. -/
  right : ∀ rule ∈ g.ruleList, ∀ s ∈ rule.key.right.symbols, g.containsSymbol s = true
  /-- No left side has an empty group of rules. -/
  group : ∀ left group, g.rules.get? left = some group → group.isEmpty = false
  /-- So no left side is left out of the archive. -/
  archived : g.toData.rules.keys = g.rules.keys

theorem Sound.consistent (h : g.Sound) : g.Consistent where
  start := hasNonterminal_iff.mpr h.closed.start
  symbol symbol := mem_symbolList_iff.trans (symbol?_eq_some_iff h.named).symm
  kind symbol hsymbol := by
    have htag := mem_symbolList_iff.mp hsymbol
    obtain ⟨name, kind, tag⟩ := symbol
    cases kind with
    | nonterminal => exact h.named.nonterminal name ⟨tag, htag⟩
    | terminal => exact h.named.terminal name ⟨tag, htag⟩
  disjoint name hname := by
    rw [← Bool.not_eq_true, SortedMap.contains, Option.isSome_iff_exists]
    exact h.named.not_terminal (hasNonterminal_iff.mp hname)
  rule rule := mem_ruleList_iff.trans rule?_eq_some_iff.symm
  left rule hrule :=
    hasNonterminal_iff.mpr (h.closed.left rule.key ⟨rule.tag, mem_ruleList_iff.mp hrule⟩)
  right rule hrule s hs :=
    containsSymbol_iff.mpr (h.closed.right rule.key ⟨rule.tag, mem_ruleList_iff.mp hrule⟩ s hs)
  group _ _ hgroup := h.dense.isEmpty_eq_false hgroup
  archived := h.dense.keys_toData

/-- **Whatever was done to it, a grammar is consistent.** -/
theorem Attained.integrity (h : g.Attained) : g.Consistent := h.sound.consistent

/-- An operation other than finalizing always leads on. -/
theorem Operation.keeps_attained {op : Operation} (hop : op ≠ .finalize) :
    Edit.Keeps Attained op.edit :=
  fun _ h => h.edit op fun hc => absurd hc hop

/-- The third and the fourth are refused, and the fourth has then proposed to remove its rule. -/
def sampleOperations : List Operation :=
  [.addSymbol "A", .addRule "A" ⟨["a"]⟩, .addRule "B" ⟨[]⟩, .replaceRule ⟨"S", ⟨["a"]⟩⟩ ⟨["b"]⟩,
    .changeStart "A", .removeSymbol "S"]

/-- The grammar `S -> a` after these operations, before it is finalized. -/
def sampleProposed : Grammar :=
  Edit.performAll Operation.edit sampleOperations
    ⟨.ofList [("S", .none)], .ofList [("a", .none)],
      .ofList [("S", .ofList [(⟨["a"]⟩, .none)])], "S"⟩

theorem attained_sampleProposed : sampleProposed.Attained := by
  refine Edit.Keeps.performAll (fun op hop => Operation.keeps_attained ?_)
    (.ofPlain (show ofPlain ⟨["S"], ["a"], .ofList [("S", ["a"])], "S"⟩ = _ by decide))
  rintro rfl
  simp [sampleOperations] at hop

theorem Attained.integrity_sample :
    (Operation.finalize.edit.apply sampleProposed).1 = .ok () ∧
      (Operation.finalize.edit.apply sampleProposed).2.Consistent :=
  ⟨by decide, Attained.integrity (.edit attained_sampleProposed .finalize fun _ => by decide)⟩

end Grammar

end Chronicle
