import Chronicle.Proofs.Grammar.WordText
/-!
Archiving a sound grammar loses nothing.

The data of a sound grammar is valid (`Sound.valid_toData`), so what comes back is its symbols, with
one archived rule after the other.  The texts of words are sorted differently from the words, which
is why the two grammars are compared tag by tag.
-/

namespace Chronicle

/-! ### Maps from lists of pairs -/

/-- The look-ups of a map made from a list in which a key has one value only. -/
theorem SortedMap.get?_ofList_eq_some {κ α : Type} [Ord κ] [Std.TransOrd κ] [Std.LawfulEqOrd κ]
    [DecidableEq κ] {pairs : List (κ × α)}
    (h : ∀ k a a', (k, a) ∈ pairs → (k, a') ∈ pairs → a = a') {k : κ} {a : α} :
    (SortedMap.ofList pairs).get? k = some a ↔ (k, a) ∈ pairs := by
  rw [SortedMap.get?_ofList]
  constructor
  · intro hget
    obtain ⟨⟨k', a'⟩, hfind, rfl⟩ := Option.map_eq_some_iff.mp hget
    have hkey : k' = k := by simpa using List.find?_some hfind
    subst hkey
    simpa using List.mem_of_find?_eq_some hfind
  · intro hmem
    cases hfind : pairs.reverse.find? (·.1 = k) with
    | none =>
        have hne := List.find?_eq_none.mp hfind (k, a) (by simpa using hmem)
        simp at hne
    | some pair =>
        have hkey : pair.1 = k := by simpa using List.find?_some hfind
        have hpair : (k, pair.2) ∈ pairs := by
          rw [← hkey]
          simpa using List.mem_of_find?_eq_some hfind
        rw [Option.map_some, h k pair.2 a hpair hmem]

namespace Grammar

variable {g g' : Grammar} {key : RuleKey} {tag : Tag} {rules : List (RuleKey × Tag)}

/-! ### Rules one after the other -/

theorem ruleTag?_withRules_of_mem (hmem : (key, tag) ∈ rules)
    (h : ∀ k t t', (k, t) ∈ rules → (k, t') ∈ rules → t = t') :
    (g.withRules rules).ruleTag? key = some tag := by
  induction rules generalizing g with
  | nil => simp at hmem
  | cons rule rules ih =>
      have htail : ∀ k t t', (k, t) ∈ rules → (k, t') ∈ rules → t = t' := fun k t t' ht ht' =>
        h k t t' (List.mem_cons_of_mem _ ht) (List.mem_cons_of_mem _ ht')
      rw [withRules, List.foldl_cons, ← withRules]
      by_cases hlater : ∃ tag', (key, tag') ∈ rules
      · obtain ⟨tag', hlater⟩ := hlater
        have hsame := h key tag tag' hmem (List.mem_cons_of_mem _ hlater)
        exact ih (hsame ▸ hlater) htail
      · have hnot : ∀ tag', (key, tag') ∉ rules := fun tag' hc => hlater ⟨tag', hc⟩
        obtain rfl : (key, tag) = rule := (List.mem_cons.mp hmem).resolve_right (hnot tag)
        rw [ruleTag?_withRules_of_not_mem hnot, ruleTag?_withRule, if_pos rfl]

theorem dense_withRules (h : g.Dense) : (g.withRules rules).Dense := by
  induction rules generalizing g with
  | nil => exact h
  | cons rule rules ih => exact ih (dense_withRule h rule.1 rule.2)

/-! ### The way there and back -/

/-- Names that the data keeps are names of symbols, and come back. -/
theorem ofText_text_of_mem (h : g.Sound) {left : String} {right : Word}
    (hrule : ⟨left, right⟩ ∈ g.outline.rules) : Word.ofText right.text = right := by
  refine Word.ofText_text fun s hs => ?_
  rcases h.closed.right _ hrule s hs with hn | ht
  · rw [h.named.nonterminal s hn]
    rfl
  · rw [h.named.terminal s ht]
    rfl

/-- A group of rules with the texts of its words. -/
def textsOf (group : SortedMap Word Tag) : SortedMap String Tag :=
  .ofList (group.toList.map fun pair => (pair.1.text, pair.2))

/-- Words that come back from their texts have different texts. -/
theorem get?_textsOf {group : SortedMap Word Tag} {text : String}
    (h : ∀ right tag, group.get? right = some tag → Word.ofText right.text = right) :
    (textsOf group).get? text = some tag ↔
      ∃ right, group.get? right = some tag ∧ right.text = text := by
  have hmem : ∀ text tag, (text, tag) ∈ group.toList.map (fun pair => (pair.1.text, pair.2)) ↔
      ∃ right, group.get? right = some tag ∧ right.text = text := by
    intro text tag
    rw [List.mem_map]
    constructor
    · intro hex
      obtain ⟨⟨right, tag'⟩, hpair, heq⟩ := hex
      obtain ⟨rfl, rfl⟩ := Prod.mk.inj heq
      exact ⟨right, SortedMap.get?_eq_some_iff.mpr hpair, rfl⟩
    · intro hex
      obtain ⟨right, hget, rfl⟩ := hex
      exact ⟨(right, tag), SortedMap.get?_eq_some_iff.mp hget, rfl⟩
  rw [textsOf, SortedMap.get?_ofList_eq_some, hmem]
  intro text tag tag' htag htag'
  obtain ⟨right, hget, rfl⟩ := (hmem _ _).mp htag
  obtain ⟨right', hget', htext⟩ := (hmem _ _).mp htag'
  have hright : right' = right := by rw [← h right' tag' hget', htext, h right tag hget]
  rw [hright, hget] at hget'
  exact Option.some.inj hget'

/-- The archived groups of a grammar without empty groups. -/
theorem mem_toData_rules (h : g.Dense) {left : String} {texts : SortedMap String Tag} :
    (left, texts) ∈ g.toData.rules.toList ↔
      ∃ group, g.rules.get? left = some group ∧ texts = textsOf group := by
  rw [← SortedMap.get?_eq_some_iff, toData, h.filter_rules, SortedMap.get?_mapValues,
    Option.map_eq_some_iff]
  exact exists_congr fun group => and_congr_right fun _ => eq_comm

/-- The archived rules of a grammar are its rules. -/
theorem mem_archivedRules (h : g.Sound) :
    (key, tag) ∈ archivedRules g.toData ↔ g.ruleTag? key = some tag := by
  have hword : ∀ left group, g.rules.get? left = some group →
      ∀ right tag, group.get? right = some tag → Word.ofText right.text = right := by
    intro left group hgroup right tag hright
    exact ofText_text_of_mem h (mem_rules_of_get? hgroup hright)
  rw [archivedRules, List.mem_flatMap, ruleTag?_eq_some]
  constructor
  · intro hex
    obtain ⟨⟨left, texts⟩, htexts, hmem⟩ := hex
    obtain ⟨⟨text, tag'⟩, hpair, heq⟩ := List.mem_map.mp hmem
    obtain ⟨rfl, rfl⟩ := Prod.mk.inj heq
    obtain ⟨group, hgroup, rfl⟩ := (mem_toData_rules h.dense).mp htexts
    obtain ⟨right, hright, rfl⟩ :=
      (get?_textsOf (hword left group hgroup)).mp (SortedMap.get?_eq_some_iff.mpr hpair)
    refine ⟨group, hgroup, ?_⟩
    rw [hword left group hgroup right _ hright]
    exact hright
  · intro hex
    obtain ⟨group, hgroup, hright⟩ := hex
    refine ⟨(key.left, textsOf group), (mem_toData_rules h.dense).mpr ⟨group, hgroup, rfl⟩, ?_⟩
    have htext : (textsOf group).get? key.right.text = some tag :=
      (get?_textsOf (hword key.left group hgroup)).mpr ⟨key.right, hright, rfl⟩
    refine List.mem_map.mpr ⟨(key.right.text, tag), SortedMap.get?_eq_some_iff.mp htext, ?_⟩
    rw [archivedRule, hword key.left group hgroup key.right tag hright]

/-- A fold over the archived rules of a sound grammar gives all of its rules. -/
theorem withRules_archivedRules (h : g.Sound) :
    withRules { g with rules := .empty } (archivedRules g.toData) = g := by
  have hdense : Dense { g with rules := .empty } := by
    intro left group hgroup
    simp at hgroup
  have hstart : SameSymbols g { g with rules := .empty } := ⟨rfl, rfl, rfl⟩
  have hsame := hstart.withRules (archivedRules g.toData)
  refine ext_tag? (dense_withRules hdense) h.dense hsame.start fun e => ?_
  cases e with
  | nonterminal name =>
      simp only [tag?, hsame.nonterminals]
  | terminal name =>
      simp only [tag?, hsame.terminals]
  | rule key =>
      show ruleTag? _ key = g.ruleTag? key
      cases htag : g.ruleTag? key with
      | none =>
          rw [ruleTag?_withRules_of_not_mem]
          · rfl
          · intro tag hmem
            rw [(mem_archivedRules h).mp hmem] at htag
            simp at htag
      | some tag =>
          refine ruleTag?_withRules_of_mem ((mem_archivedRules h).mpr htag) ?_
          intro key tag tag' hmem hmem'
          have hsome := (mem_archivedRules h).mp hmem
          rw [(mem_archivedRules h).mp hmem'] at hsome
          exact (Option.some.inj hsome).symm

/-- The archived data of a sound grammar is valid. -/
theorem Sound.valid_toData (h : g.Sound) : g.toData.Valid := by
  have hrule : ∀ left texts, (left, texts) ∈ g.toData.rules.toList → ∀ text tag,
      texts.get? text = some tag → ⟨left, Word.ofText text⟩ ∈ g.outline.rules := by
    intro left texts htexts text tag htext
    refine ⟨tag, (mem_archivedRules h).mp (List.mem_flatMap.mpr ⟨(left, texts), htexts, ?_⟩)⟩
    exact List.mem_map.mpr ⟨(text, tag), SortedMap.get?_eq_some_iff.mp htext, rfl⟩
  refine ⟨fun name hname => ?_, fun name hname => ?_, ?_, fun left hleft => ?_,
    fun texts htexts text htext s hs => ?_⟩
  · exact SymbolKind.ofName?_eq_some_iff.mp
      (h.named.nonterminal name (SortedMap.mem_keys_iff.mp hname))
  · exact SymbolKind.ofName?_eq_some_iff.mp (h.named.terminal name (SortedMap.mem_keys_iff.mp hname))
  · exact SortedMap.mem_keys_iff.mpr h.closed.start
  · obtain ⟨⟨left, texts⟩, hpair, rfl⟩ := List.mem_map.mp hleft
    obtain ⟨group, hgroup, rfl⟩ := (mem_toData_rules h.dense).mp hpair
    obtain ⟨right, tag, hright⟩ := h.dense left group hgroup
    exact SortedMap.mem_keys_iff.mpr (h.closed.left _ (mem_rules_of_get? hgroup hright))
  · obtain ⟨⟨left, texts⟩, hpair, rfl⟩ := List.mem_map.mp htexts
    obtain ⟨tag, htext⟩ := SortedMap.mem_keys_iff.mp htext
    exact (h.closed.right _ (hrule left texts hpair text tag htext) s hs).imp
      SortedMap.mem_keys_iff.mpr SortedMap.mem_keys_iff.mpr

/-- **A sound grammar comes back from its archived data.** -/
theorem Sound.ofData_toData (h : g.Sound) : ofData g.toData = .ok g :=
  ofData_eq_ok_iff.mpr ⟨h.valid_toData, (withRules_archivedRules h).symm⟩

end Grammar

end Chronicle
