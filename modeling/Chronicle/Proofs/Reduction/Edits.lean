import Chronicle.Proofs.Reduction.Drafts
/-!
What the steps of the reduction propose.

Each edit of the reduction is described by the entries that are to go after it and by the members of
the set that it works on.  The sets of the source are the usual approximations from below: one round
adds the left sides of rules over known generating nonterminals (`Outline.generatingOver`), or the
nonterminals in the rules of known reachable ones (`Outline.reachableOver`).
-/

namespace Chronicle

namespace Outline

variable {o : Outline} {known : Set String}

/-- The left sides of the rules whose nonterminals are all known. -/
def generatingOver (o : Outline) (known : Set String) : Set String :=
  {x | ∃ key ∈ o.rules, key.left = x ∧ ∀ s ∈ key.right.symbols, s ∈ o.nonterminals → s ∈ known}

/-- The nonterminals in the rules with a known left side. -/
def reachableOver (o : Outline) (known : Set String) : Set String :=
  {x | ∃ key ∈ o.rules, key.left ∈ known ∧ x ∈ key.right.symbols ∧ x ∈ o.nonterminals}

/-- The rules that replace a symbol by itself alone. -/
def loopEntries (o : Outline) : Set GrammarEntry :=
  {e | ∃ key ∈ o.rules, key.isLoop = true ∧ e = .rule key}

/-- The nonterminals outside a set, and the rules that mention one of them. -/
def outside (o : Outline) (keep : Set String) : Set GrammarEntry :=
  {e | (∃ name ∈ o.nonterminals, name ∉ keep ∧ e = .nonterminal name) ∨
    ∃ key ∈ o.rules, ¬ o.Within keep key ∧ e = .rule key}

theorem without_loopEntries (o : Outline) : o.without o.loopEntries = o.dropLoops := by
  ext x
  · rfl
  · simp [without, loopEntries, dropLoops]
  · simp [without, loopEntries, dropLoops]
  · simp only [without, loopEntries, dropLoops, Set.mem_ofPred_eq, GrammarEntry.rule.injEq]
    constructor
    · intro h
      obtain ⟨hmem, hloop⟩ := h
      refine ⟨hmem, ?_⟩
      by_contra hc
      exact hloop ⟨x, hmem, by simpa using hc, rfl⟩
    · intro h
      obtain ⟨hmem, hloop⟩ := h
      refine ⟨hmem, ?_⟩
      intro h
      obtain ⟨key, -, hkey, rfl⟩ := h
      simp [hloop] at hkey

theorem without_outside (o : Outline) (keep : Set String) :
    o.without (o.outside keep) = o.within keep := by
  ext x
  · rfl
  · simp only [without, outside, within, Set.mem_ofPred_eq]
    constructor
    · intro h
      obtain ⟨hmem, hkeep⟩ := h
      refine ⟨hmem, ?_⟩
      by_contra hc
      exact hkeep (.inl ⟨x, hmem, hc, rfl⟩)
    · intro h
      obtain ⟨hmem, hkeep⟩ := h
      refine ⟨hmem, ?_⟩
      intro h
      rcases h with ⟨name, -, hname, heq⟩ | ⟨key, -, -, heq⟩
      · exact hname (GrammarEntry.nonterminal.inj heq ▸ hkeep)
      · simp at heq
  · simp [without, outside, within]
  · simp only [without, outside, within, Set.mem_ofPred_eq]
    constructor
    · intro h
      obtain ⟨hmem, hwithin⟩ := h
      refine ⟨hmem, ?_⟩
      by_contra hc
      exact hwithin (.inr ⟨x, hmem, hc, rfl⟩)
    · intro h
      obtain ⟨hmem, hwithin⟩ := h
      refine ⟨hmem, ?_⟩
      intro h
      rcases h with ⟨name, -, -, heq⟩ | ⟨key, -, hkey, heq⟩
      · simp at heq
      · exact hkey (GrammarEntry.rule.inj heq ▸ hwithin)

end Outline

namespace Reduction

variable {s : Snapshot} {o : Outline} {doomed : Set GrammarEntry} {bag : Bag → Prop} {id : String}
  {known pending : Set String}

/-! ### Rules and symbols -/

theorem removeRules_yields (h : s.Amid o doomed bag) (keys : List RuleKey)
    (hkeys : ∀ key ∈ keys, key ∈ o.rules) :
    (removeRules keys).Yields s fun _ next =>
      next.Amid o (doomed ∪ {e | ∃ key ∈ keys, e = .rule key}) bag := by
  obtain ⟨g', happly, hproposes⟩ := Grammar.proposes_forM (f := Grammar.removeRule)
    (fun key => {.rule key}) keys h.old fun key hkey g₁ hold houtline => by
      refine Grammar.proposes_removeRule hold ?_
      rw [houtline, h.outline_eq]
      exact hkeys key hkey
  exact (h.editGrammar happly hproposes).mono fun _ _ hnext => hnext.2

theorem removeSymbols_yields (h : s.Amid o doomed bag) (names : List String)
    (hnames : ∀ name ∈ names, name ∈ o.nonterminals) :
    (Snapshot.editGrammar (names.forM Grammar.removeSymbol)).Yields s fun _ next =>
      next.Amid o (doomed ∪ {e | ∃ name ∈ names, e = .nonterminal name}) bag := by
  obtain ⟨g', happly, hproposes⟩ := Grammar.proposes_forM (f := Grammar.removeSymbol)
    (fun name => {.nonterminal name}) names h.old fun name hname g₁ hold houtline => by
      refine Grammar.proposes_removeSymbol hold ?_
      rw [houtline, h.outline_eq]
      exact hnames name hname
  exact (h.editGrammar happly hproposes).mono fun _ _ hnext => hnext.2

theorem markSymbols_yields (h : s.Amid o doomed bag) {tag : Tag} (hremoved : tag ≠ .removed)
    (hnew : tag ≠ .new) (names : List String)
    (hnames : ∀ name ∈ names, name ∈ o.nonterminals ∨ name ∈ o.terminals) :
    (markSymbols names tag).Yields s fun _ next => next.Amid o doomed bag := by
  obtain ⟨g', happly, hproposes⟩ := Grammar.proposes_forM
    (f := fun name => discard (Grammar.markSymbol name tag)) (fun _ => ∅) names h.old
    fun name hname g₁ hold houtline => by
      refine Grammar.proposes_markSymbol hold ?_ hremoved hnew
      rw [Grammar.containsSymbol_iff, houtline, h.outline_eq]
      exact hnames name hname
  refine (h.markGrammar happly ?_).mono fun _ _ hnext => hnext.2
  simpa using hproposes

theorem markRule_yields (h : s.Amid o doomed bag) {key : RuleKey} {tag : Tag}
    (hremoved : tag ≠ .removed) (hnew : tag ≠ .new) (hkey : key ∈ o.rules) :
    (Snapshot.editGrammar (Grammar.markRule key tag)).Yields s fun _ next =>
      next.Amid o doomed bag := by
  rw [← h.outline_eq] at hkey
  obtain ⟨carried, g', happly, hproposes⟩ :=
    Grammar.proposes_markRule h.old hkey hremoved hnew
  exact (h.markGrammar happly hproposes).mono fun _ _ hnext => hnext.2

theorem dropSelfLoops_yields (h : s.Amid o ∅ bag) :
    dropSelfLoops.Yields s fun _ next => next.Amid o o.loopEntries bag := by
  have hmem : ∀ key, key ∈ s.grammar.ruleList.map (·.key) ↔ key ∈ o.rules := fun key => by
    rw [Grammar.mem_ruleList_map, h.outline_eq]
  refine .get_bind ((removeRules_yields h _ fun key hkey => ?_).mono fun _ next hnext => ?_)
  · exact (hmem key).mp (List.mem_filter.mp hkey).1
  · have hset : o.loopEntries = ∅ ∪ {e | ∃ key ∈ (s.grammar.ruleList.map (·.key)).filter
        RuleKey.isLoop, e = .rule key} := by
      ext e
      simp only [Outline.loopEntries, Set.empty_union, Set.mem_ofPred_eq, List.mem_filter, hmem,
        and_assoc]
    rw [hset]
    exact hnext

/-- The removal of nonterminals, and of what mentions them. -/
theorem removeNonterminals_yields (h : s.Amid o ∅ bag) {gone : SortedSet String}
    {keep : Set String} (hgone : ∀ x, gone.contains x = true ↔ x ∈ o.nonterminals ∧ x ∉ keep) :
    (removeNonterminals gone).Yields s fun _ next => next.Amid o (o.outside keep) bag := by
  have hkey : ∀ key ∈ o.rules,
      (gone.contains key.left || key.right.symbols.any gone.contains) = true ↔
        ¬ o.Within keep key := by
    intro key _
    simp only [Outline.Within, List.mem_cons, Bool.or_eq_true, List.any_eq_true, hgone]
    constructor
    · intro hall hwithin
      rcases hall with ⟨hn, hout⟩ | ⟨x, hx, hn, hout⟩
      · exact hout (hwithin key.left (.inl rfl) hn)
      · exact hout (hwithin x (.inr hx) hn)
    · intro hnot
      by_contra hc
      refine hnot fun x hx hn => ?_
      by_contra hout
      rcases hx with rfl | hx
      · exact hc (.inl ⟨hn, hout⟩)
      · exact hc (.inr ⟨x, hx, hn, hout⟩)
  have hmem : ∀ key, key ∈ s.grammar.ruleList.map (·.key) ↔ key ∈ o.rules := fun key => by
    rw [Grammar.mem_ruleList_map, h.outline_eq]
  refine .get_bind (.bind (removeRules_yields h _ fun key hmemKey => ?_) fun _ next hnext => ?_)
  · exact (hmem key).mp (List.mem_filter.mp hmemKey).1
  · refine (removeSymbols_yields hnext gone.toList fun name hname => ?_).mono fun _ last hlast => ?_
    · exact ((hgone name).mp (SortedSet.contains_iff.mpr hname)).1
    · convert hlast using 1
      ext e
      simp only [Outline.outside, Set.empty_union, Set.mem_union, Set.mem_ofPred_eq,
        List.mem_filter, hmem, ← SortedSet.contains_iff, hgone]
      constructor
      · intro hex
        rcases hex with ⟨name, hn, hout, rfl⟩ | ⟨key, hrule, hwithin, rfl⟩
        · exact .inr ⟨name, ⟨hn, hout⟩, rfl⟩
        · exact .inl ⟨key, ⟨hrule, (hkey key hrule).mpr hwithin⟩, rfl⟩
      · intro hex
        rcases hex with ⟨key, ⟨hrule, hwithin⟩, rfl⟩ | ⟨name, ⟨hn, hout⟩, rfl⟩
        · exact .inr ⟨key, hrule, (hkey key hrule).mp hwithin, rfl⟩
        · exact .inl ⟨name, hn, hout, rfl⟩

/-! ### The set -/

theorem addMember_yields (h : s.Amid o doomed (·.HoldsSet id known pending)) (item : String) :
    (addMember id item).Yields s fun fresh next => (fresh = true ↔ item ∉ known) ∧
      next.Amid o doomed (·.HoldsSet id known (insert item pending)) := by
  obtain ⟨bag', fresh, happly, hfresh, hbag⟩ := h.structures.add_eq item
  refine (h.editStructures (·.HoldsSet id known (insert item pending)) happly hbag).mono
    fun answer next hnext => ?_
  rw [hnext.1]
  exact ⟨hfresh, hnext.2.2⟩

/-- Of the candidates those are answered that are new, and all are proposed. -/
theorem proposeMembers_yields (h : s.Amid o doomed (·.HoldsSet id known pending))
    (candidates : List String) :
    (proposeMembers id candidates).Yields s fun grown next =>
      (∀ x, x ∈ grown ↔ x ∈ candidates ∧ x ∉ known) ∧
      next.Amid o doomed (·.HoldsSet id known (pending ∪ {x | x ∈ candidates})) := by
  have hloop : ∀ (l acc : List String) (pending : Set String) (s : Snapshot),
      s.Amid o doomed (·.HoldsSet id known pending) →
      (List.filterAuxM (addMember id) l acc).Yields s fun grown next =>
        (∀ x, x ∈ grown ↔ x ∈ acc ∨ (x ∈ l ∧ x ∉ known)) ∧
        next.Amid o doomed (·.HoldsSet id known (pending ∪ {x | x ∈ l})) := by
    intro l
    induction l with
    | nil =>
        intro acc pending s h
        exact .pure ⟨by simp, by simpa using h⟩
    | cons item l ih =>
        intro acc pending s h
        refine .bind (addMember_yields h item) fun fresh next hnext => ?_
        refine (ih _ _ next hnext.2).mono fun grown last hlast => ⟨fun x => ?_, ?_⟩
        · rw [hlast.1]
          cases fresh with
          | true =>
              have hitem : item ∉ known := hnext.1.mp rfl
              grind
          | false =>
              have hitem : item ∈ known := by simpa using hnext.1
              grind
        · have hset : insert item pending ∪ {x | x ∈ l} = pending ∪ {x | x ∈ item :: l} := by
            ext x
            simp only [Set.mem_union, Set.mem_insert_iff, Set.mem_ofPred_eq, List.mem_cons]
            grind
          exact hset ▸ hlast.2
  refine .bind (hloop candidates [] pending s h) fun grown next hnext => ?_
  exact .pure ⟨fun x => by simp [hnext.1], hnext.2⟩

theorem effectiveMembers_yields (h : s.Amid o doomed (·.HoldsSet id known pending)) :
    (effectiveMembers id).Yields s fun set next => set.members = known ∧ next = s := by
  obtain ⟨set, hcontent, hmembers⟩ := h.structures.content_eq
  refine .get_bind ⟨set.effective, s, ?_, hmembers, rfl⟩
  rw [hcontent]
  rfl

/-- Another name changes nothing of what the set holds. -/
theorem countRound_yields (h : s.Amid o doomed (·.HoldsSet id known pending)) (letter : String) :
    (countRound id letter).Yields s fun _ next =>
      next.Amid o doomed (·.HoldsSet id known pending) := by
  obtain ⟨entry, hget⟩ := h.structures.exists_get?
  have hput := h.structures.put ({ · with name := nextRoundName letter entry.name }) hget rfl
  refine (h.editStructures (·.HoldsSet id known pending) (a := ()) ?_ hput).mono
    fun _ _ hnext => hnext.2.2
  rw [Edit.apply_atomic]
  simp only [Bag.require, hget, bind, Except.bind, pure, Except.pure]

theorem rename_yields (h : s.Amid o doomed (·.HoldsSet id known pending)) (name : String) :
    (rename id name).Yields s fun _ next =>
      next.Amid o doomed (·.HoldsSet id known pending) := by
  obtain ⟨entry, hget⟩ := h.structures.exists_get?
  have hput := h.structures.put ({ · with name }) hget rfl
  refine (h.editStructures (·.HoldsSet id known pending) (a := ()) ?_ hput).mono
    fun _ _ hnext => hnext.2.2
  rw [Edit.apply_modify]
  simp only [Bag.editEntry, hget]

theorem openSet_yields (h : s.Amid o doomed (· = .empty)) (id name : String) :
    (Snapshot.editStructures (Bag.openContent .symbolSet id name)).Yields s fun _ next =>
      next.Amid o doomed (·.HoldsSet id ∅ ∅) := by
  obtain ⟨content, bag, happly, hbag⟩ := Bag.openContent_eq id name
  have hempty : s.structures = .empty := h.structures
  rw [← hempty] at happly
  exact (h.editStructures (·.HoldsSet id ∅ ∅) happly hbag).mono fun _ _ hnext => hnext.2.2

/-- Nothing is emphasised any more, and the set is gone. -/
theorem wipe_yields (h : s.Amid o doomed (·.HoldsSet id known pending)) :
    (wipe id).Yields s fun _ next =>
      next.grammar = s.grammar.clearTags ∧ next.Amid o doomed (· = .empty) := by
  refine .bind (h.markGrammar (Edit.apply_modify _ _) (Grammar.proposes_clearTags h.old))
    fun _ next hnext => ?_
  obtain ⟨content, hremove⟩ := hnext.2.structures.remove_eq
  have hdiscard : (discard (Bag.remove id)).apply next.structures = (.ok (), .empty) := by
    rw [Edit.apply_discard, hremove]
    rfl
  refine (hnext.2.editStructures (· = .empty) hdiscard rfl).mono fun _ last hlast => ⟨?_, hlast.2.2⟩
  rw [hlast.2.1, hnext.1]

/-- One round: what is proposed is marked, and the answer is whether any of it is new. -/
theorem proposeRound_yields (h : s.Amid o doomed (·.HoldsSet id known known))
    {candidates : List String} {found : Set String} (hfound : ∀ x, x ∈ candidates ↔ x ∈ found)
    (hmem : found ⊆ o.nonterminals) :
    Edit.Yields (do
        let grown ← proposeMembers id candidates
        markSymbols grown .attentionWillTransfer
        return !grown.isEmpty) s fun more next =>
      (more = true ↔ ¬ found ⊆ known) ∧
      next.Amid o doomed (·.HoldsSet id known (known ∪ found)) := by
  refine .bind (proposeMembers_yields h candidates) ?_
  intro grown s₁ hs₁
  obtain ⟨hgrown, h₁⟩ := hs₁
  refine .bind (markSymbols_yields h₁ (by simp) (by simp) _ fun name hname => ?_)
    fun _ s₂ h₂ => .pure ⟨?_, ?_⟩
  · exact .inl (hmem ((hfound name).mp ((hgrown name).mp hname).1))
  · rw [Bool.not_eq_true', List.isEmpty_eq_false_iff_exists_mem, Set.not_subset]
    exact exists_congr fun x => by rw [hgrown, hfound]
  · have hset : {x | x ∈ candidates} = found := Set.ext hfound
    exact hset ▸ h₂

/-! ### The generating nonterminals -/

theorem generates_iff {g : Grammar} (houtline : g.outline = o) {known : String → Bool}
    {right : Word} : generates g known right = true ↔
      ∀ x ∈ right.symbols, x ∈ o.nonterminals → known x = true := by
  simp only [generates, List.all_eq_true, Bool.or_eq_true, Bool.not_eq_true']
  refine forall_congr' fun x => imp_congr_right fun _ => ?_
  rw [← houtline, ← Grammar.hasNonterminal_iff]
  cases g.hasNonterminal x <;> simp

/-- A rule is marked, and its left side is proposed. -/
theorem proposeLeft_yields {key : RuleKey} (h : s.Amid o doomed (·.HoldsSet id known pending))
    (hkey : key ∈ o.rules) :
    Edit.Yields (do
        let _ ← addMember id key.left
        let _ ← Snapshot.editGrammar (Grammar.markRule key .attentionWasSet)
        markSymbols [key.left] .attentionWillTransfer) s fun _ next =>
      next.Amid o doomed (·.HoldsSet id known (insert key.left pending)) := by
  refine .bind (addMember_yields h key.left) fun _ s₁ h₁ => ?_
  refine .bind (markRule_yields h₁.2 (by simp) (by simp) hkey) fun _ s₂ h₂ => ?_
  refine markSymbols_yields h₂ (by simp) (by simp) _ fun name hname => ?_
  rw [List.mem_singleton.mp hname]
  exact .inl (h.closed.left key hkey)

/-- The set begins with the left sides of the rules without nonterminals. -/
theorem openGenerating_yields (h : s.Amid o doomed (· = .empty)) :
    openGenerating.Yields s fun _ next =>
      next.Amid o doomed (·.HoldsSet generatingId ∅ (o.generatingOver ∅)) := by
  have hmem : ∀ key, key ∈ (s.grammar.ruleList.map (·.key)).filter
      (fun key => generates s.grammar (fun _ => false) key.right) ↔
      key ∈ o.rules ∧ ∀ x ∈ key.right.symbols, x ∈ o.nonterminals → x ∈ (∅ : Set String) := by
    intro key
    rw [List.mem_filter, Grammar.mem_ruleList_map, h.outline_eq, generates_iff h.outline_eq]
    simp
  unfold openGenerating
  refine .get_bind (.bind (markSymbols_yields h (by simp) (by simp) _ fun name hname => ?_)
    fun _ s₁ h₁ => .bind (openSet_yields h₁ generatingId "S/0") fun _ s₂ h₂ => ?_)
  · rw [Grammar.mem_terminalList_map, h.outline_eq] at hname
    exact .inr hname
  · -- The members gathered so far are the left sides of the rules that are done.
    have hinit : s₂.Amid o doomed (·.HoldsSet generatingId ∅
        {x | ∃ key ∈ ([] : List RuleKey), key.left = x}) := by
      simpa using h₂
    refine (Edit.Yields.forM (fun before next => next.Amid o doomed
      (·.HoldsSet generatingId ∅ {x | ∃ key ∈ before, key.left = x})) _ hinit ?_).mono ?_
    · intro before key hkey s₃ h₃
      have hset : insert key.left {x | ∃ key ∈ before, key.left = x}
          = {x | ∃ key' ∈ before ++ [key], key'.left = x} := by
        ext x
        simp only [Set.mem_insert_iff, Set.mem_ofPred_eq, List.mem_append, List.mem_singleton]
        grind
      rw [← hset]
      exact proposeLeft_yields h₃ ((hmem key).mp hkey).1
    · intro _ next hnext
      have hset : {x | ∃ key ∈ (s.grammar.ruleList.map (·.key)).filter
          (fun key => generates s.grammar (fun _ => false) key.right), key.left = x}
          = o.generatingOver ∅ := by
        ext x
        simp only [Set.mem_ofPred_eq, hmem, Outline.generatingOver]
        grind
      exact hset ▸ hnext

/-- A round reads the effective members and proposes more. -/
theorem extendGenerating_yields (h : s.Amid o doomed (·.HoldsSet generatingId known known)) :
    extendGenerating.Yields s fun more next =>
      (more = true ↔ ¬ o.generatingOver known ⊆ known) ∧
      next.Amid o doomed (·.HoldsSet generatingId known (known ∪ o.generatingOver known)) := by
  unfold extendGenerating
  refine .bind (countRound_yields h "S") fun _ s₁ h₁ => .bind (effectiveMembers_yields h₁) ?_
  intro set s₂ hs₂
  obtain ⟨hset, rfl⟩ := hs₂
  have hcandidates : ∀ x, x ∈ ((s₂.grammar.ruleList.map (·.key)).filter
      (fun key => generates s₂.grammar set.contains key.right)).map (·.left) ↔
      x ∈ o.generatingOver known := by
    intro x
    rw [List.mem_map]
    simp only [List.mem_filter, Grammar.mem_ruleList_map, h₁.outline_eq,
      generates_iff h₁.outline_eq, ← SortedSet.mem_members, hset]
    constructor
    · intro hmem
      obtain ⟨key, ⟨hkey, hright⟩, hleft⟩ := hmem
      exact ⟨key, hkey, hleft, hright⟩
    · intro hmem
      obtain ⟨key, hkey, hleft, hright⟩ := hmem
      exact ⟨key, ⟨hkey, hright⟩, hleft⟩
  refine .get_bind (proposeRound_yields h₁ hcandidates ?_)
  intro x hx
  obtain ⟨key, hkey, rfl, -⟩ := hx
  exact h.closed.left key hkey

/-- What is not generating goes, but the start symbol stays. -/
theorem keepGenerating_yields (h : s.Amid o ∅ (·.HoldsSet generatingId known pending)) :
    keepGenerating.Yields s fun _ next =>
      next.Amid o (o.outside (insert o.start known))
        (·.HoldsSet generatingId known pending) := by
  unfold keepGenerating
  refine .bind (rename_yields h "S") fun _ s₁ h₁ => .bind (effectiveMembers_yields h₁) ?_
  intro set s₂ hs₂
  obtain ⟨hset, rfl⟩ := hs₂
  refine .get_bind (removeNonterminals_yields h₁ fun x => ?_)
  rw [SortedSet.contains_ofList, decide_eq_true_eq, List.mem_filter,
    Grammar.mem_nonterminalList_map, h₁.outline_eq, h₁.start_eq, Set.mem_insert_iff, ← hset,
    SortedSet.mem_members]
  simp only [Bool.and_eq_true, Bool.not_eq_true', bne_iff_ne, ne_eq, not_or, Bool.not_eq_true]
  exact and_congr_right fun _ => And.comm

/-! ### The reachable nonterminals -/

theorem openReachable_yields (h : s.Amid o doomed (· = .empty)) :
    openReachable.Yields s fun _ next =>
      next.Amid o doomed (·.HoldsSet reachableId ∅ {o.start}) := by
  unfold openReachable
  refine .get_bind (.bind (openSet_yields h reachableId "H/0") fun _ s₁ h₁ =>
    .bind (addMember_yields h₁ s.grammar.start) fun _ s₂ h₂ => ?_)
  refine (markSymbols_yields h₂.2 (by simp) (by simp) _ fun name hname => ?_).mono
    fun _ next hnext => ?_
  · rw [List.mem_singleton.mp hname, h.start_eq]
    exact .inl h.closed.start
  · rw [h.start_eq, insert_empty_eq] at hnext
    exact hnext

theorem extendReachable_yields (h : s.Amid o doomed (·.HoldsSet reachableId known known)) :
    extendReachable.Yields s fun more next =>
      (more = true ↔ ¬ o.reachableOver known ⊆ known) ∧
      next.Amid o doomed (·.HoldsSet reachableId known (known ∪ o.reachableOver known)) := by
  unfold extendReachable
  refine .bind (countRound_yields h "H") fun _ s₁ h₁ => .bind (effectiveMembers_yields h₁) ?_
  intro set s₂ hs₂
  obtain ⟨hset, rfl⟩ := hs₂
  have hcandidates : ∀ x, x ∈ (s₂.grammar.ruleList.map (·.key)).flatMap (fun key =>
      if set.contains key.left then key.right.symbols.filter s₂.grammar.hasNonterminal else []) ↔
      x ∈ o.reachableOver known := by
    intro x
    rw [List.mem_flatMap]
    constructor
    · intro hmem
      obtain ⟨key, hkey, hx⟩ := hmem
      rw [Grammar.mem_ruleList_map, h₁.outline_eq] at hkey
      split at hx
      · next hleft =>
          obtain ⟨hright, hn⟩ := List.mem_filter.mp hx
          rw [Grammar.hasNonterminal_iff, h₁.outline_eq] at hn
          exact ⟨key, hkey, hset ▸ hleft, hright, hn⟩
      · simp at hx
    · intro hmem
      obtain ⟨key, hkey, hleft, hright, hn⟩ := hmem
      refine ⟨key, by rwa [Grammar.mem_ruleList_map, h₁.outline_eq], ?_⟩
      rw [if_pos (SortedSet.mem_members.mp (hset ▸ hleft)), List.mem_filter,
        Grammar.hasNonterminal_iff, h₁.outline_eq]
      exact ⟨hright, hn⟩
  refine .get_bind (proposeRound_yields h₁ hcandidates ?_)
  intro x hmem
  obtain ⟨key, -, -, -, hn⟩ := hmem
  exact hn

theorem keepReachable_yields (h : s.Amid o ∅ (·.HoldsSet reachableId known pending)) :
    keepReachable.Yields s fun _ next =>
      next.Amid o (o.outside known) (·.HoldsSet reachableId known pending) := by
  unfold keepReachable
  refine .bind (rename_yields h "H") fun _ s₁ h₁ => .bind (effectiveMembers_yields h₁) ?_
  intro set s₂ hs₂
  obtain ⟨hset, rfl⟩ := hs₂
  refine .get_bind (removeNonterminals_yields h₁ fun x => ?_)
  rw [SortedSet.contains_ofList, decide_eq_true_eq, List.mem_filter,
    Grammar.mem_nonterminalList_map, h₁.outline_eq, ← hset, SortedSet.mem_members]
  simp only [Bool.not_eq_true', Bool.not_eq_true]

end Reduction

end Chronicle
