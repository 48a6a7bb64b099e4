import Chronicle.Grammar.Edit
import Chronicle.Proofs.Grammar.Outline
import Chronicle.SortedMap.Lemmas
import Mathlib.Data.List.Nodup
/-!
The entries of a grammar, look-up by look-up.

A grammar is its start symbol and the tags of its entries (`tag?`), where an entry is a symbol or
a rule; that determines it as soon as no group of rules is empty (`ext_tag?`).  The outline of a
grammar is made of the entries that it has, and its future of those that are not proposed to be
removed.  Every edit is described by the tag that an entry has afterwards.
-/

namespace Chronicle

/-- What can carry a tag in a grammar. -/
inductive GrammarEntry
  | nonterminal (name : String)
  | terminal (name : String)
  | rule (key : RuleKey)
deriving DecidableEq

/-- The outline with the given entries. -/
def Outline.ofEntries (start : String) (entries : Set GrammarEntry) : Outline where
  start := start
  nonterminals := {name | .nonterminal name ∈ entries}
  terminals := {name | .terminal name ∈ entries}
  rules := {key | .rule key ∈ entries}

namespace Grammar

variable {g g' : Grammar} {name : String} {key : RuleKey} {tag : Tag} {e : GrammarEntry}

/-- The tag of an entry, if the grammar has the entry. -/
def tag? (g : Grammar) : GrammarEntry → Option Tag
  | .nonterminal name => g.nonterminals.get? name
  | .terminal name => g.terminals.get? name
  | .rule key => g.ruleTag? key

def Has (g : Grammar) (e : GrammarEntry) : Prop := ∃ tag, g.tag? e = some tag

/-- The grammar without its tags. -/
def outline (g : Grammar) : Outline := .ofEntries g.start {e | g.Has e}

/-- What is left of the grammar when its proposals are made true. -/
def future (g : Grammar) : Outline :=
  .ofEntries g.start {e | ∃ tag, g.tag? e = some tag ∧ tag ≠ .removed}

/-- There is no left side without a rule. -/
def Dense (g : Grammar) : Prop :=
  ∀ left group, g.rules.get? left = some group → ∃ right tag, group.get? right = some tag

theorem ruleTag?_eq_some : g.ruleTag? key = some tag ↔
    ∃ group, g.rules.get? key.left = some group ∧ group.get? key.right = some tag :=
  Option.bind_eq_some_iff

theorem mem_rules_of_get? {left : String} {right : Word} {group : SortedMap Word Tag}
    (hgroup : g.rules.get? left = some group) (hright : group.get? right = some tag) :
    ⟨left, right⟩ ∈ g.outline.rules := by
  refine ⟨tag, ?_⟩
  show g.ruleTag? ⟨left, right⟩ = some tag
  exact ruleTag?_eq_some.mpr ⟨group, hgroup, hright⟩

/-- A grammar is determined by its start symbol, its tags and the left sides that have a group. -/
theorem ext_lefts (hstart : g.start = g'.start)
    (hlefts : ∀ left, g.rules.contains left = g'.rules.contains left)
    (htag : ∀ e, g.tag? e = g'.tag? e) : g = g' := by
  have hrules : g.rules = g'.rules := by
    refine SortedMap.ext_get? fun left => ?_
    have hleft : (g.rules.get? left).isSome = (g'.rules.get? left).isSome := hlefts left
    have hright : ∀ right, (g.rules.get? left).bind (·.get? right)
        = (g'.rules.get? left).bind (·.get? right) := fun right => htag (.rule ⟨left, right⟩)
    cases hgroup : g.rules.get? left with
    | none =>
        rw [hgroup] at hleft
        exact (Option.not_isSome_iff_eq_none.mp (by rw [← hleft]; simp)).symm
    | some group =>
        rw [hgroup] at hleft
        obtain ⟨group', hgroup'⟩ := Option.isSome_iff_exists.mp hleft.symm
        rw [hgroup', Option.some.injEq]
        refine SortedMap.ext_get? fun right => ?_
        simpa [hgroup, hgroup'] using hright right
  have hnonterminals : g.nonterminals = g'.nonterminals :=
    SortedMap.ext_get? fun name => htag (.nonterminal name)
  have hterminals : g.terminals = g'.terminals :=
    SortedMap.ext_get? fun name => htag (.terminal name)
  cases g
  cases g'
  simp_all

/-- Where no group is empty, the left sides are those of the rules. -/
theorem Dense.contains_iff (h : g.Dense) {left : String} :
    g.rules.contains left = true ↔ ∃ right, g.Has (.rule ⟨left, right⟩) := by
  rw [SortedMap.contains, Option.isSome_iff_exists]
  constructor
  · intro hex
    obtain ⟨group, hgroup⟩ := hex
    obtain ⟨right, tag, hright⟩ := h left group hgroup
    exact ⟨right, mem_rules_of_get? hgroup hright⟩
  · intro hex
    obtain ⟨right, tag, htag⟩ := hex
    obtain ⟨group, hgroup, -⟩ := ruleTag?_eq_some.mp htag
    exact ⟨group, hgroup⟩

/-- Such a grammar is determined by its start symbol and its tags. -/
theorem ext_tag? (hg : g.Dense) (hg' : g'.Dense) (hstart : g.start = g'.start)
    (htag : ∀ e, g.tag? e = g'.tag? e) : g = g' := by
  refine ext_lefts hstart (fun left => ?_) htag
  rw [Bool.eq_iff_iff, hg.contains_iff, hg'.contains_iff]
  unfold Has
  simp only [htag]

/-- A grammar in which nothing is removed is its own future. -/
theorem future_eq_outline (h : ∀ e, g.tag? e ≠ some .removed) : g.future = g.outline := by
  have hentries : {e | ∃ tag, g.tag? e = some tag ∧ tag ≠ .removed} = {e | g.Has e} := by
    ext e
    constructor
    · exact fun ⟨tag, htag, _⟩ => ⟨tag, htag⟩
    · intro ⟨tag, htag⟩
      refine ⟨tag, htag, ?_⟩
      intro heq
      subst heq
      exact h e htag
  rw [future, hentries, outline]

/-! ### Tests and listings -/

theorem hasNonterminal_iff : g.hasNonterminal name = true ↔ name ∈ g.outline.nonterminals := by
  rw [hasNonterminal, SortedMap.contains, Option.isSome_iff_exists]
  rfl

theorem containsSymbol_iff : g.containsSymbol name = true ↔
    name ∈ g.outline.nonterminals ∨ name ∈ g.outline.terminals := by
  rw [containsSymbol, Bool.or_eq_true, SortedMap.contains, SortedMap.contains,
    Option.isSome_iff_exists, Option.isSome_iff_exists]
  rfl

/-- Putting one entry in front loses none. -/
theorem mem_startingWith {α : Type} {first x : String} {m : SortedMap String α} {a : α} :
    (x, a) ∈ startingWith first m ↔ m.get? x = some a := by
  rw [startingWith, List.mem_append, List.mem_map, List.mem_filter, ← SortedMap.get?_eq_some_iff]
  constructor
  · intro hmem
    rcases hmem with ⟨b, hb, hpair⟩ | ⟨h, -⟩
    · obtain ⟨rfl, rfl⟩ := Prod.mk.inj hpair
      exact Option.mem_toList.mp hb
    · exact h
  · intro h
    by_cases hx : x = first
    · exact .inl ⟨a, Option.mem_toList.mpr (hx ▸ h), by rw [hx]⟩
    · exact .inr ⟨h, by simpa using hx⟩

theorem mem_nonterminalList_map : name ∈ g.nonterminalList.map (·.name) ↔
    name ∈ g.outline.nonterminals := by
  simp only [nonterminalList, List.map_map, List.mem_map, Function.comp]
  constructor
  · intro hex
    obtain ⟨⟨x, tag⟩, hmem, rfl⟩ := hex
    exact ⟨tag, mem_startingWith.mp hmem⟩
  · intro hex
    obtain ⟨tag, h⟩ := hex
    exact ⟨(name, tag), mem_startingWith.mpr h, rfl⟩

theorem mem_terminalList_map : name ∈ g.terminalList.map (·.name) ↔
    name ∈ g.outline.terminals := by
  simp only [terminalList, List.map_map, List.mem_map, Function.comp]
  constructor
  · intro hex
    obtain ⟨⟨x, tag⟩, hmem, rfl⟩ := hex
    exact ⟨tag, SortedMap.get?_eq_some_iff.mpr hmem⟩
  · intro hex
    obtain ⟨tag, h⟩ := hex
    exact ⟨(name, tag), SortedMap.get?_eq_some_iff.mp h, rfl⟩

theorem mem_ruleList_map : key ∈ g.ruleList.map (·.key) ↔ key ∈ g.outline.rules := by
  simp only [ruleList, groupRules, List.mem_map, List.mem_flatMap]
  constructor
  · intro hmem
    obtain ⟨rule, ⟨⟨left, group⟩, hgroup, ⟨right, tag⟩, hright, rfl⟩, rfl⟩ := hmem
    exact ⟨tag, ruleTag?_eq_some.mpr
      ⟨group, mem_startingWith.mp hgroup, SortedMap.get?_eq_some_iff.mpr hright⟩⟩
  · intro hmem
    obtain ⟨tag, h⟩ := hmem
    obtain ⟨group, hgroup, hright⟩ := ruleTag?_eq_some.mp h
    exact ⟨⟨key, tag⟩, ⟨(key.left, group), mem_startingWith.mpr hgroup, (key.right, tag),
      SortedMap.get?_eq_some_iff.mp hright, rfl⟩, rfl⟩

/-- Putting one entry in front doubles none. -/
theorem nodup_startingWith {α : Type} (first : String) (m : SortedMap String α) :
    ((startingWith first m).map (·.1)).Nodup := by
  have hrest : ((m.toList.filter (·.1 != first)).map (·.1)).Nodup :=
    m.nodup_keys.sublist (List.filter_sublist.map _)
  have hfirst : first ∉ (m.toList.filter (·.1 != first)).map (·.1) := by simp
  rw [startingWith, List.map_append]
  cases m.get? first with
  | none => simpa using hrest
  | some a => exact List.nodup_cons.mpr ⟨hfirst, hrest⟩

/-- No rule is listed twice. -/
theorem nodup_ruleList_map (g : Grammar) : (g.ruleList.map (·.key)).Nodup := by
  rw [ruleList, List.map_flatMap, List.nodup_flatMap]
  constructor
  · intro entry _
    show ((groupRules entry.1 entry.2).map (·.key)).Nodup
    have hkeys := entry.2.nodup_keys.map (f := RuleKey.mk entry.1) fun x y h => (RuleKey.mk.inj h).2
    rw [groupRules, List.map_map]
    simpa [SortedMap.keys, Function.comp_def] using hkeys
  · have hleft : ∀ (entry : String × SortedMap Word Tag) (key : RuleKey),
        key ∈ (groupRules entry.1 entry.2).map (·.key) → key.left = entry.1 := by
      intro entry key h
      rw [groupRules, List.map_map] at h
      obtain ⟨pair, -, rfl⟩ := List.mem_map.mp h
      rfl
    refine (List.pairwise_map.mp (nodup_startingWith g.start g.rules)).imp fun {a b} hne => ?_
    exact List.disjoint_left.mpr fun key h h' => hne ((hleft a key h).symm.trans (hleft b key h'))

/-! ### One entry -/

theorem ruleTag?_withRule (g : Grammar) (key key' : RuleKey) (tag : Tag) :
    (g.withRule key tag).ruleTag? key' = if key' = key then some tag else g.ruleTag? key' := by
  obtain ⟨left, right⟩ := key
  obtain ⟨left', right'⟩ := key'
  simp only [ruleTag?, withRule, SortedMap.get?_insert, RuleKey.mk.injEq]
  by_cases hleft : left' = left
  · subst hleft
    simp only [if_true, Option.bind_some, SortedMap.get?_insert, true_and]
    by_cases hright : right' = right
    · simp [hright]
    · rw [if_neg hright, if_neg hright]
      cases g.rules.get? left' <;> rfl
  · simp [hleft]

/-- A nonterminal with another tag. -/
theorem tag?_insert_nonterminal (g : Grammar) (name : String) (tag : Tag) (e : GrammarEntry) :
    ({ g with nonterminals := g.nonterminals.insert name tag } : Grammar).tag? e
      = if e = .nonterminal name then some tag else g.tag? e := by
  cases e with
  | nonterminal x =>
      show (g.nonterminals.insert name tag).get? x = _
      rw [SortedMap.get?_insert]
      simp only [GrammarEntry.nonterminal.injEq]
      rfl
  | terminal x => rfl
  | rule key => rfl

theorem tag?_insert_terminal (g : Grammar) (name : String) (tag : Tag) (e : GrammarEntry) :
    ({ g with terminals := g.terminals.insert name tag } : Grammar).tag? e
      = if e = .terminal name then some tag else g.tag? e := by
  cases e with
  | terminal x =>
      show (g.terminals.insert name tag).get? x = _
      rw [SortedMap.get?_insert]
      simp only [GrammarEntry.terminal.injEq]
      rfl
  | nonterminal x => rfl
  | rule key => rfl

theorem tag?_withRule (g : Grammar) (key : RuleKey) (tag : Tag) (e : GrammarEntry) :
    (g.withRule key tag).tag? e = if e = .rule key then some tag else g.tag? e := by
  cases e with
  | rule key' =>
      show (g.withRule key tag).ruleTag? key' = _
      rw [ruleTag?_withRule]
      simp only [GrammarEntry.rule.injEq]
      rfl
  | nonterminal x => rfl
  | terminal x => rfl

theorem dense_withRule (h : g.Dense) (key : RuleKey) (tag : Tag) : (g.withRule key tag).Dense := by
  intro left group hgroup
  simp only [withRule, SortedMap.get?_insert] at hgroup
  split at hgroup
  · refine ⟨key.right, tag, ?_⟩
    rw [← Option.some.inj hgroup, SortedMap.get?_insert, if_pos rfl]
  · exact h left group hgroup

theorem tag?_mapTags (g : Grammar) (f : Tag → Tag) (e : GrammarEntry) :
    (g.mapTags f).tag? e = (g.tag? e).map f := by
  cases e with
  | nonterminal x => exact SortedMap.get?_mapValues _ _ _
  | terminal x => exact SortedMap.get?_mapValues _ _ _
  | rule key =>
      show ((g.mapTags f).rules.get? key.left).bind _ = ((g.rules.get? key.left).bind _).map f
      rw [mapTags, SortedMap.get?_mapValues]
      cases g.rules.get? key.left with
      | none => rfl
      | some group => exact SortedMap.get?_mapValues _ _ _

theorem dense_mapTags (hg : g.Dense) (f : Tag → Tag) : (g.mapTags f).Dense := by
  intro left group hgroup
  rw [mapTags, SortedMap.get?_mapValues] at hgroup
  obtain ⟨group₀, hgroup₀, rfl⟩ := Option.map_eq_some_iff.mp hgroup
  obtain ⟨right, tag, h⟩ := hg left group₀ hgroup₀
  exact ⟨right, f tag, by rw [SortedMap.get?_mapValues, h]; rfl⟩

/-! ### Making the proposals true -/

theorem isEmpty_eq_false {κ α : Type} [Ord κ] [Std.TransOrd κ] [Std.LawfulEqOrd κ]
    {m : SortedMap κ α} : m.isEmpty = false ↔ ∃ x a, m.get? x = some a := by
  rw [SortedMap.isEmpty, List.isEmpty_eq_false_iff_exists_mem]
  constructor
  · exact fun ⟨(x, a), hmem⟩ => ⟨x, a, SortedMap.get?_eq_some_iff.mpr hmem⟩
  · exact fun ⟨x, a, h⟩ => ⟨(x, a), SortedMap.get?_eq_some_iff.mp h⟩

theorem Dense.isEmpty_eq_false (h : g.Dense) {left : String} {group : SortedMap Word Tag}
    (hgroup : g.rules.get? left = some group) : group.isEmpty = false :=
  Grammar.isEmpty_eq_false.mpr (h left group hgroup)

/-- There is nothing for the archive to leave out. -/
theorem Dense.filter_rules (h : g.Dense) :
    g.rules.filter (fun _ group => !group.isEmpty) = g.rules := by
  refine SortedMap.ext_get? fun left => ?_
  rw [SortedMap.get?_filter]
  cases hgroup : g.rules.get? left with
  | none => rfl
  | some group => exact Option.filter_some_pos (by simp [h.isEmpty_eq_false hgroup])

/-- What is removed is gone, and all other tags have faded. -/
theorem tag?_settled (g : Grammar) (e : GrammarEntry) :
    g.settled.tag? e = ((g.tag? e).filter (· ≠ .removed)).map Tag.decay := by
  rw [settled, tag?_mapTags]
  congr 1
  cases e with
  | nonterminal x => exact SortedMap.get?_filter _ _ _
  | terminal x => exact SortedMap.get?_filter _ _ _
  | rule key =>
      show Option.bind (SortedMap.get? _ key.left) _ = Option.filter _ (Option.bind _ _)
      rw [SortedMap.get?_filter, SortedMap.get?_mapValues]
      cases g.rules.get? key.left with
      | none => rfl
      | some group =>
          rw [Option.map_some, Option.bind_some,
            ← SortedMap.get?_filter group (fun _ tag => tag ≠ .removed) key.right]
          generalize (group.filter fun _ tag => decide (tag ≠ .removed)) = kept
          -- A group that is dropped for being empty had no rule left.
          cases hempty : kept.isEmpty with
          | false => rw [Option.filter_some_pos (by simp [hempty]), Option.bind_some]
          | true =>
              rw [Option.filter_some_neg (by simp [hempty])]
              cases htag : kept.get? key.right with
              | none => rfl
              | some tag =>
                  rw [isEmpty_eq_false.mpr ⟨key.right, tag, htag⟩] at hempty
                  simp at hempty

theorem dense_settled (g : Grammar) : g.settled.Dense := by
  refine dense_mapTags ?_ _
  intro left group hgroup
  rw [SortedMap.get?_filter, Option.filter_eq_some_iff] at hgroup
  exact isEmpty_eq_false.mp (by simpa using hgroup.2)

theorem has_settled : g.settled.Has e ↔ ∃ tag, g.tag? e = some tag ∧ tag ≠ .removed := by
  unfold Has
  rw [tag?_settled]
  cases g.tag? e with
  | none => simp
  | some tag =>
      by_cases h : tag = .removed
      · simp [h]
      · rw [Option.filter_some_pos (by simpa using h)]
        exact ⟨fun _ => ⟨tag, rfl, h⟩, fun _ => ⟨tag.decay, rfl⟩⟩

theorem outline_settled (g : Grammar) : g.settled.outline = g.future := by
  rw [outline, future]
  congr 1
  ext e
  exact has_settled

end Grammar

end Chronicle
