import Chronicle.Proofs.Grammar.Moves
import Chronicle.Proofs.Text.ByteOrder
/-!
Which data is admitted as a grammar.

Reading archived data looks at the names, at the start symbol, and at each rule before it comes in.
Nothing but the symbols of the data itself is looked at, because rules that came in before change
no symbol (`SameSymbols`).  So the data is read exactly if it is `Valid`, which mentions no order,
and what comes out is a fold over its rules (`ofData_eq_ok_iff`).

Several texts may spell one word, and then one rule takes the place of another.  The data is kept
in the order of the bytes of its texts, so the last text in that order decides about the tag
(`ruleTag?_withRules_archivedRules`).
-/

namespace Chronicle

/-! ### Names -/

/-- May a symbol of this kind have the name? -/
structure SymbolKind.Names (kind : SymbolKind) (name : String) : Prop where
  nonempty : name.toList ≠ []
  /-- That is how the empty word is written. -/
  reserved : name ≠ epsilonText
  chars : ∀ c ∈ name.toList, isNameChar c = true
  /-- An upper-case letter in front makes a nonterminal. -/
  first : (∃ c ∈ name.toList.head?, c.isUpper = true) ↔ kind = .nonterminal

/-- The test for names is right about all of them. -/
theorem SymbolKind.ofName?_eq_some_iff {kind : SymbolKind} {name : String} :
    ofName? name = some kind ↔ kind.Names name := by
  unfold ofName?
  cases hname : name.toList with
  | nil =>
      constructor
      · intro h
        cases h
      · intro h
        exact absurd hname h.nonempty
  | cons c rest =>
      have hchars : (∀ d ∈ name.toList, isNameChar d = true)
          ↔ (c :: rest).all isNameChar = true := by
        rw [hname, List.all_eq_true]
      have hfirst : (∃ d ∈ name.toList.head?, d.isUpper = true) ↔ c.isUpper = true := by
        simp [hname]
      dsimp only
      constructor
      · intro h
        split at h
        · cases h
        · next hcond =>
            rw [Bool.or_eq_true, not_or, beq_iff_eq, Bool.not_eq_true', Bool.not_eq_false] at hcond
            refine ⟨by simp [hname], hcond.1, hchars.mpr hcond.2, hfirst.trans ?_⟩
            split at h <;> cases h <;> simp_all
      · intro h
        have hcond : ¬(name == epsilonText || !(c :: rest).all isNameChar) = true := by
          rw [Bool.or_eq_true, not_or, beq_iff_eq, hchars.mp h.chars]
          exact ⟨h.reserved, by simp⟩
        rw [if_neg hcond]
        have hkind := hfirst.symm.trans h.first
        cases kind with
        | nonterminal => rw [if_pos (hkind.mpr rfl)]
        | terminal => rw [if_neg fun hupper => by cases hkind.mp hupper]

instance (kind : SymbolKind) (name : String) : Decidable (kind.Names name) :=
  decidable_of_iff _ SymbolKind.ofName?_eq_some_iff

/-! ### What is asked of the data -/

namespace GrammarData

/-- The data has the symbol, of whichever kind. -/
def Knows (d : GrammarData) (name : String) : Prop :=
  name ∈ d.nonterminals.keys ∨ name ∈ d.terminals.keys

instance (d : GrammarData) (name : String) : Decidable (d.Knows name) :=
  inferInstanceAs (Decidable (_ ∨ _))

/-- The names are such, and nothing is mentioned that is not there. -/
structure Valid (d : GrammarData) : Prop where
  nonterminals : ∀ name ∈ d.nonterminals.keys, SymbolKind.nonterminal.Names name
  terminals : ∀ name ∈ d.terminals.keys, SymbolKind.terminal.Names name
  start : d.start ∈ d.nonterminals.keys
  left : ∀ left ∈ d.rules.keys, left ∈ d.nonterminals.keys
  right : ∀ group ∈ d.rules.values, ∀ text ∈ group.keys,
    ∀ s ∈ (Word.ofText text).symbols, d.Knows s

theorem valid_iff (d : GrammarData) :
    ((∀ name ∈ d.nonterminals.keys, SymbolKind.nonterminal.Names name) ∧
      (∀ name ∈ d.terminals.keys, SymbolKind.terminal.Names name) ∧
      d.start ∈ d.nonterminals.keys ∧ (∀ left ∈ d.rules.keys, left ∈ d.nonterminals.keys) ∧
      ∀ group ∈ d.rules.values, ∀ text ∈ group.keys, ∀ s ∈ (Word.ofText text).symbols, d.Knows s)
      ↔ d.Valid :=
  ⟨fun ⟨h₁, h₂, h₃, h₄, h₅⟩ => ⟨h₁, h₂, h₃, h₄, h₅⟩, fun h => ⟨h.1, h.2, h.3, h.4, h.5⟩⟩

instance (d : GrammarData) : Decidable d.Valid := decidable_of_iff _ d.valid_iff

end GrammarData

namespace Grammar

variable {g g' g₀ : Grammar} {d : GrammarData} {name left : String} {key : RuleKey} {tag : Tag}
  {rules : List (RuleKey × Tag)}

/-! ### Rules one after the other -/

/-- The grammar with all rules of a list, one after the other. -/
def withRules (g : Grammar) (rules : List (RuleKey × Tag)) : Grammar :=
  rules.foldl (fun g rule => g.withRule rule.1 rule.2) g

theorem withRules_append (g : Grammar) (rules rules' : List (RuleKey × Tag)) :
    g.withRules (rules ++ rules') = (g.withRules rules).withRules rules' := List.foldl_append

theorem ruleTag?_withRules_of_not_mem (h : ∀ tag, (key, tag) ∉ rules) :
    (g.withRules rules).ruleTag? key = g.ruleTag? key := by
  induction rules generalizing g with
  | nil => rfl
  | cons rule rules ih =>
      have hne : key ≠ rule.1 := by
        intro heq
        subst heq
        exact h rule.2 List.mem_cons_self
      rw [withRules, List.foldl_cons, ← withRules,
        ih fun tag hc => h tag (List.mem_cons_of_mem _ hc), ruleTag?_withRule, if_neg hne]

/-- The last of several rules with one key decides. -/
theorem ruleTag?_withRules_append_cons {front behind : List (RuleKey × Tag)}
    (h : ∀ tag', (key, tag') ∉ behind) :
    (g.withRules (front ++ (key, tag) :: behind)).ruleTag? key = some tag := by
  rw [withRules_append]
  show (((g.withRules front).withRule key tag).withRules behind).ruleTag? key = some tag
  rw [ruleTag?_withRules_of_not_mem h, ruleTag?_withRule, if_pos rfl]

/-- The other grammar has the same symbols. -/
structure SameSymbols (g g' : Grammar) : Prop where
  nonterminals : g'.nonterminals = g.nonterminals
  terminals : g'.terminals = g.terminals
  start : g'.start = g.start

namespace SameSymbols

theorem refl (g : Grammar) : SameSymbols g g := ⟨rfl, rfl, rfl⟩

theorem has_nonterminal (h : SameSymbols g g') :
    name ∈ g'.outline.nonterminals ↔ name ∈ g.outline.nonterminals := by
  show (∃ tag, g'.nonterminals.get? name = some tag) ↔ _
  rw [h.nonterminals]
  rfl

theorem has_terminal (h : SameSymbols g g') :
    name ∈ g'.outline.terminals ↔ name ∈ g.outline.terminals := by
  show (∃ tag, g'.terminals.get? name = some tag) ↔ _
  rw [h.terminals]
  rfl

theorem knows_iff (h : SameSymbols g g') : g'.Knows name ↔ g.Knows name :=
  or_congr h.has_nonterminal h.has_terminal

theorem withRule (h : SameSymbols g g') (key : RuleKey) (tag : Tag) :
    SameSymbols g (g'.withRule key tag) :=
  ⟨h.nonterminals, h.terminals, h.start⟩

theorem withRules (h : SameSymbols g g') (rules : List (RuleKey × Tag)) :
    SameSymbols g (g'.withRules rules) := by
  induction rules generalizing g' with
  | nil => exact h
  | cons rule rules ih => exact ih (h.withRule rule.1 rule.2)

end SameSymbols

/-! ### Reading the data -/

theorem withSymbol_eq_ok_iff {kind : SymbolKind} : g.withSymbol name tag (some kind) = .ok g' ↔
    kind.Names name ∧ g' = g.put (.symbol kind name) tag := by
  rw [← SymbolKind.ofName?_eq_some_iff]
  constructor
  · intro h
    obtain ⟨kind', hname, hkind, rfl⟩ := withSymbol_eq_ok h
    obtain rfl := hkind kind rfl
    exact ⟨hname, rfl⟩
  · intro h
    obtain ⟨hname, rfl⟩ := h
    cases kind <;> simp [withSymbol, hname, put, GrammarEntry.symbol]

/-- The grammar with other symbols of one kind. -/
def withSymbols (g : Grammar) : SymbolKind → SortedMap String Tag → Grammar
  | .nonterminal, symbols => { g with nonterminals := symbols }
  | .terminal, symbols => { g with terminals := symbols }

theorem foldl_put_symbols (g : Grammar) (kind : SymbolKind) (entries : List (String × Tag))
    (symbols : SortedMap String Tag) :
    entries.foldl (fun g entry => g.put (.symbol kind entry.1) entry.2) (g.withSymbols kind symbols)
      = g.withSymbols kind (entries.foldl (fun m entry => m.insert entry.1 entry.2) symbols) := by
  induction entries generalizing symbols with
  | nil => rfl
  | cons entry entries ih =>
      rw [List.foldl_cons, List.foldl_cons, ← ih]
      cases kind <;> rfl

/-- The symbols of one kind come in if their names are such. -/
theorem foldlM_withSymbol_eq_ok_iff (g : Grammar) (kind : SymbolKind)
    (symbols : SortedMap String Tag) (g' : Grammar) :
    symbols.toList.foldlM (fun g (name, tag) => g.withSymbol name tag (some kind))
        (g.withSymbols kind .empty) = .ok g' ↔
      (∀ name ∈ symbols.keys, kind.Names name) ∧ g' = g.withSymbols kind symbols := by
  have hfold := foldl_put_symbols g kind symbols.toList .empty
  rw [← SortedMap.ofList, SortedMap.ofList_toList] at hfold
  rw [← hfold, SortedMap.keys, List.forall_mem_map]
  exact foldlM_eq_ok_iff (fun _ => True) trivial (fun _ _ _ _ _ => withSymbol_eq_ok_iff)
    fun _ _ _ => trivial

/-- The grammar with the symbols of the data, and no rules yet. -/
def symbolsOf (d : GrammarData) : Grammar := ⟨d.nonterminals, d.terminals, .empty, d.start⟩

theorem knows_symbolsOf : (symbolsOf d).Knows name ↔ d.Knows name :=
  or_congr SortedMap.mem_keys_iff.symm SortedMap.mem_keys_iff.symm

/-- One archived rule, read. -/
def archivedRule (left : String) (entry : String × Tag) : RuleKey × Tag :=
  (⟨left, Word.ofText entry.1⟩, entry.2)

/-- All rules of the archived data, read. -/
def archivedRules (d : GrammarData) : List (RuleKey × Tag) :=
  d.rules.toList.flatMap fun pair => pair.2.toList.map (archivedRule pair.1)

/-- The rules of one left side come in if all that they mention is there. -/
theorem addArchivedGroup_eq_ok_iff {group : SortedMap String Tag} (h : SameSymbols g₀ g) :
    g.addArchivedGroup left group = .ok g' ↔
      (left ∈ g₀.outline.nonterminals ∧
        ∀ pair ∈ group.toList, ∀ s ∈ (Word.ofText pair.1).symbols, g₀.Knows s) ∧
      g' = g.withRules (group.toList.map (archivedRule left)) := by
  have hrules : (group.toList.foldlM (fun g (text, tag) => do
        let right := Word.ofText text
        g.requireWord right
        return g.withRule ⟨left, right⟩ tag) g) = .ok g' ↔
      (∀ pair ∈ group.toList, ∀ s ∈ (Word.ofText pair.1).symbols, g₀.Knows s) ∧
        g' = g.withRules (group.toList.map (archivedRule left)) := by
    rw [withRules, List.foldl_map]
    refine foldlM_eq_ok_iff (SameSymbols g₀) h ?_ fun g pair hg => hg.withRule _ _
    intro g pair _ g' hg
    have hword : g.requireWord (Word.ofText pair.1) = .ok () ↔
        ∀ s ∈ (Word.ofText pair.1).symbols, g₀.Knows s :=
      requireWord_eq_ok.trans (forall₂_congr fun s _ => hg.knows_iff)
    rw [← hword]
    constructor
    · intro hstep
      obtain ⟨⟨⟩, hrequire, hadd⟩ := exists_of_bind_eq_ok hstep
      exact ⟨hrequire, (Except.ok.inj hadd).symm⟩
    · intro hstep
      obtain ⟨hrequire, rfl⟩ := hstep
      simp only [hrequire, bind, Except.bind, pure, Except.pure, archivedRule]
  have hleft : g.requireNonterminal left = .ok () ↔ left ∈ g₀.outline.nonterminals :=
    requireNonterminal_eq_ok.trans h.has_nonterminal
  rw [and_assoc, ← hrules, ← hleft]
  constructor
  · intro hgroup
    obtain ⟨⟨⟩, hrequire, hadd⟩ := exists_of_bind_eq_ok hgroup
    exact ⟨hrequire, hadd⟩
  · intro hgroup
    unfold addArchivedGroup
    rw [hgroup.1]
    exact hgroup.2

/-- All rules come in if what they mention is there. -/
theorem foldlM_addArchivedGroup_eq_ok_iff :
    d.rules.toList.foldlM (fun g (left, group) => g.addArchivedGroup left group) (symbolsOf d)
        = .ok g ↔
      ((∀ left ∈ d.rules.keys, left ∈ d.nonterminals.keys) ∧
        ∀ group ∈ d.rules.values, ∀ text ∈ group.keys,
          ∀ s ∈ (Word.ofText text).symbols, d.Knows s) ∧
      g = (symbolsOf d).withRules (archivedRules d) := by
  have hleft : ∀ left, left ∈ d.nonterminals.keys ↔ left ∈ (symbolsOf d).outline.nonterminals :=
    fun left => SortedMap.mem_keys_iff
  rw [withRules, archivedRules, List.foldl_flatMap]
  simp only [hleft, ← knows_symbolsOf]
  simp only [SortedMap.keys, SortedMap.values, List.forall_mem_map]
  rw [← forall₂_and]
  exact foldlM_eq_ok_iff (SameSymbols (symbolsOf d)) (.refl _)
    (fun g pair _ g' hg => addArchivedGroup_eq_ok_iff hg) fun g pair hg => hg.withRules _

/-- **Data is read exactly if it is valid**, and its rules come in one after the other. -/
theorem ofData_eq_ok_iff :
    ofData d = .ok g ↔ d.Valid ∧ g = (symbolsOf d).withRules (archivedRules d) := by
  have hnonterminals :=
    foldlM_withSymbol_eq_ok_iff ⟨.empty, .empty, .empty, d.start⟩ .nonterminal d.nonterminals
  have hterminals :=
    foldlM_withSymbol_eq_ok_iff ⟨d.nonterminals, .empty, .empty, d.start⟩ .terminal d.terminals
  have hstart : (symbolsOf d).requireNonterminal d.start = .ok () ↔
      d.start ∈ d.nonterminals.keys :=
    requireNonterminal_eq_ok.trans SortedMap.mem_keys_iff.symm
  unfold ofData
  constructor
  · intro h
    obtain ⟨g₁, h₁, h⟩ := exists_of_bind_eq_ok h
    obtain ⟨hnames, rfl⟩ := (hnonterminals g₁).mp h₁
    obtain ⟨g₂, h₂, h⟩ := exists_of_bind_eq_ok h
    obtain ⟨hnames', rfl⟩ := (hterminals g₂).mp h₂
    obtain ⟨⟨⟩, h₃, h⟩ := exists_of_bind_eq_ok h
    obtain ⟨⟨hleft, hright⟩, rfl⟩ := foldlM_addArchivedGroup_eq_ok_iff.mp h
    exact ⟨⟨hnames, hnames', hstart.mp h₃, hleft, hright⟩, rfl⟩
  · intro h
    obtain ⟨hvalid, hg⟩ := h
    have hrules := foldlM_addArchivedGroup_eq_ok_iff.mpr ⟨⟨hvalid.left, hvalid.right⟩, hg⟩
    refine bind_eq_ok_iff.mpr ⟨_, (hnonterminals _).mpr ⟨hvalid.nonterminals, rfl⟩, ?_⟩
    refine bind_eq_ok_iff.mpr ⟨_, (hterminals _).mpr ⟨hvalid.terminals, rfl⟩, ?_⟩
    exact bind_eq_ok_iff.mpr ⟨(), hstart.mpr hvalid.start, hrules⟩

/-! ### Texts that spell one word -/

/-- Of the texts that spell the word, this one is the last in the order of bytes. -/
structure LastSpelling (group : SortedMap String Tag) (word : Word) (text : String) (tag : Tag) :
    Prop where
  entry : group.get? text = some tag
  spells : Word.ofText text = word
  last : ∀ other ∈ group.keys, Word.ofText other = word → Text.bytes other ≤ Text.bytes text

/-- If a word is spelled at all, it has a last spelling. -/
theorem exists_lastSpelling {group : SortedMap String Tag} {word : Word} {text : String}
    (htext : text ∈ group.keys) (hspells : Word.ofText text = word) :
    ∃ last tag, LastSpelling group word last tag := by
  obtain ⟨tag, hget⟩ := SortedMap.mem_keys_iff.mp htext
  have hmem := SortedMap.get?_eq_some_iff.mp hget
  -- Found from behind, it is the last.
  cases hfind : group.toList.reverse.find? fun pair => Word.ofText pair.1 = word with
  | none => simpa [hspells] using List.find?_eq_none.mp hfind (text, tag) (by simpa using hmem)
  | some pair =>
      obtain ⟨hpair, behind, front, hsplit, hbehind⟩ := List.find?_eq_some_iff_append.mp hfind
      have hincreasing := List.pairwise_reverse.mpr group.bytes_increasing
      rw [hsplit, List.pairwise_append, List.pairwise_cons] at hincreasing
      have hlisted : ∀ p, p ∈ group.toList ↔ p ∈ behind ∨ p = pair ∨ p ∈ front := by
        intro p
        rw [← List.mem_reverse, hsplit, List.mem_append, List.mem_cons]
      refine ⟨pair.1, pair.2, SortedMap.get?_eq_some_iff.mpr ((hlisted pair).mpr (.inr (.inl rfl))),
        of_decide_eq_true hpair, fun other hother hword => ?_⟩
      obtain ⟨tag', hother⟩ := SortedMap.mem_keys_iff.mp hother
      rcases (hlisted _).mp (SortedMap.get?_eq_some_iff.mp hother) with hmem | heq | hmem
      · simpa [hword] using hbehind _ hmem
      · rw [← heq]
        exact List.le_refl _
      · exact List.le_of_lt (hincreasing.2.1.1 _ hmem)

/-- The last spelling decides about the tag. -/
theorem LastSpelling.ruleTag?_eq {group : SortedMap String Tag} {word : Word} {text : String}
    (h : LastSpelling group word text tag) (hgroup : d.rules.get? left = some group) :
    ((symbolsOf d).withRules (archivedRules d)).ruleTag? ⟨left, word⟩ = some tag := by
  obtain ⟨before, after, hgroups⟩ :=
    List.append_of_mem (SortedMap.get?_eq_some_iff.mp hgroup)
  obtain ⟨front, behind, htexts⟩ :=
    List.append_of_mem (SortedMap.get?_eq_some_iff.mp h.entry)
  have hrules : archivedRules d
      = (before.flatMap fun pair => pair.2.toList.map (archivedRule pair.1)) ++
          front.map (archivedRule left) ++ (⟨left, word⟩, tag) ::
        (behind.map (archivedRule left) ++
          after.flatMap fun pair => pair.2.toList.map (archivedRule pair.1)) := by
    have hrule : archivedRule left (text, tag) = (⟨left, word⟩, tag) := by
      rw [archivedRule, h.spells]
    rw [archivedRules, hgroups, List.flatMap_append, List.flatMap_cons, htexts, List.map_append,
      List.map_cons, hrule]
    simp only [List.append_assoc, List.cons_append]
  rw [hrules]
  refine ruleTag?_withRules_append_cons fun tag' hmem => ?_
  rcases List.mem_append.mp hmem with hmem | hmem
  · -- A text behind it would be a later spelling.
    obtain ⟨⟨other, tag''⟩, hother, heq⟩ := List.mem_map.mp hmem
    obtain ⟨hkey, rfl⟩ := Prod.mk.inj heq
    have hword : Word.ofText other = word := congrArg RuleKey.right hkey
    have hkeys : other ∈ group.keys := by
      refine List.mem_map.mpr ⟨(other, tag''), ?_, rfl⟩
      rw [htexts]
      exact List.mem_append_right _ (List.mem_cons_of_mem _ hother)
    have hincreasing := group.bytes_increasing
    rw [htexts, List.pairwise_append, List.pairwise_cons] at hincreasing
    exact h.last other hkeys hword (hincreasing.2.1.1 _ hother)
  · -- Another group has another left side.
    obtain ⟨⟨left', group'⟩, hgroup', hmem⟩ := List.mem_flatMap.mp hmem
    obtain ⟨pair, -, heq⟩ := List.mem_map.mp hmem
    obtain rfl : left' = left := congrArg (fun rule => rule.1.left) heq
    have hsorted := d.rules.sorted
    rw [hgroups, List.pairwise_append, List.pairwise_cons] at hsorted
    have hlt := hsorted.2.1.1 _ hgroup'
    simp [Std.ReflCmp.compare_self] at hlt

theorem ruleTag?_withRules_archivedRules :
    ((symbolsOf d).withRules (archivedRules d)).ruleTag? key = some tag ↔
      ∃ group text, d.rules.get? key.left = some group ∧
        LastSpelling group key.right text tag := by
  constructor
  · intro h
    by_cases hspelled : ∃ tag', (key, tag') ∈ archivedRules d
    · obtain ⟨tag', hmem⟩ := hspelled
      obtain ⟨⟨left, group⟩, hgroup, hmem⟩ := List.mem_flatMap.mp hmem
      obtain ⟨⟨text, tag''⟩, htext, heq⟩ := List.mem_map.mp hmem
      obtain ⟨rfl, rfl⟩ := Prod.mk.inj heq
      have hgroup := SortedMap.get?_eq_some_iff.mpr hgroup
      obtain ⟨last, tag₀, hlast⟩ :=
        exists_lastSpelling (List.mem_map.mpr ⟨(text, tag''), htext, rfl⟩) rfl
      rw [hlast.ruleTag?_eq hgroup] at h
      obtain rfl := Option.some.inj h
      exact ⟨group, last, hgroup, hlast⟩
    · rw [ruleTag?_withRules_of_not_mem fun tag' hc => hspelled ⟨tag', hc⟩] at h
      cases h
  · intro h
    obtain ⟨group, text, hgroup, hlast⟩ := h
    exact hlast.ruleTag?_eq hgroup

/-- **Loading data accepts exactly the valid grammars**, and what it gives is told by the data.

The symbols are those of the data, with their tags.  There is a rule exactly if some text of its
left side spells the right side, and the tag is that of the last such text in the order of
bytes. -/
theorem ofData_accepts_valid (d : GrammarData) :
    ((∃ g, ofData d = .ok g) ↔ d.Valid) ∧
      ∀ g, ofData d = .ok g →
        (g.nonterminals = d.nonterminals ∧ g.terminals = d.terminals ∧ g.start = d.start) ∧
        (∀ key, (∃ tag, g.ruleTag? key = some tag) ↔
          ∃ group, d.rules.get? key.left = some group ∧
            ∃ text ∈ group.keys, Word.ofText text = key.right) ∧
        ∀ key tag, g.ruleTag? key = some tag ↔
          ∃ group text, d.rules.get? key.left = some group ∧
            LastSpelling group key.right text tag := by
  refine ⟨⟨fun h => ?_, fun h => ⟨_, ofData_eq_ok_iff.mpr ⟨h, rfl⟩⟩⟩, fun g hg => ?_⟩
  · obtain ⟨g, hg⟩ := h
    exact (ofData_eq_ok_iff.mp hg).1
  · obtain ⟨-, rfl⟩ := ofData_eq_ok_iff.mp hg
    have hsame := (SameSymbols.refl (symbolsOf d)).withRules (archivedRules d)
    refine ⟨⟨hsame.nonterminals, hsame.terminals, hsame.start⟩, fun key => ?_,
      fun key tag => ruleTag?_withRules_archivedRules⟩
    simp only [ruleTag?_withRules_archivedRules]
    constructor
    · intro h
      obtain ⟨tag, group, text, hgroup, hlast⟩ := h
      exact ⟨group, hgroup, text, SortedMap.mem_keys_iff.mpr ⟨tag, hlast.entry⟩, hlast.spells⟩
    · intro h
      obtain ⟨group, hgroup, text, htext, hspells⟩ := h
      obtain ⟨last, tag, hlast⟩ := exists_lastSpelling htext hspells
      exact ⟨tag, group, last, hgroup, hlast⟩

/-- Data in which two texts spell `a S`, and two the empty word. -/
def respelled : GrammarData where
  nonterminals := .ofList [("S", .new)]
  terminals := .ofList [("a", .none)]
  rules := .ofList [("S", .ofList [(" ", .new), ("a  S", .removed), ("a S", .new), ("eps", .none)])]
  start := "S"

/-- The data is valid.  A blank comes before a letter, so the text with one blank is the last for
`a S`. -/
theorem ofData_accepts_valid_respelled : respelled.Valid ∧
    ∃ g, ofData respelled = .ok g ∧ g.nonterminals = respelled.nonterminals ∧
      g.ruleTag? ⟨"S", ⟨["a", "S"]⟩⟩ = some .new ∧ g.ruleTag? ⟨"S", ⟨[]⟩⟩ = some .none := by
  have hvalid : respelled.Valid := by decide
  obtain ⟨haccepts, htold⟩ := ofData_accepts_valid respelled
  obtain ⟨g, hg⟩ := haccepts.mpr hvalid
  obtain ⟨⟨hnonterminals, -⟩, -, htags⟩ := htold g hg
  refine ⟨hvalid, g, hg, hnonterminals, ?_, ?_⟩
  · exact (htags _ _).mpr ⟨_, "a S", rfl, by decide, by decide, by decide⟩
  · exact (htags _ _).mpr ⟨_, "eps", rfl, by decide, by decide, by decide⟩

end Grammar

end Chronicle
