import Chronicle.Word
import Mathlib.Data.Set.Basic
import Mathlib.Logic.Relation
/-!
Grammars without tags, and the words they derive.

An `Outline` is what is left of a grammar without its tags: the sets of its symbols and rules, and
its start symbol.  A rule rewrites one occurrence of its left side (`Rewrites`); the language is
what the start symbol derives in any number of such steps.

Two restrictions of an outline keep its language, each for its own reason.  A rule that replaces a
symbol by itself alone does nothing (`dropLoops`).  A rule with a nonterminal outside a set that
holds whatever can matter is never used (`within`): on the way to a word of terminals every
nonterminal is generating, by induction from the end of the derivation, and every nonterminal is
reachable, by induction from its beginning.  `reduced` is made of these restrictions.
-/

namespace Chronicle

/-- A grammar without its tags. -/
@[ext]
structure Outline where
  start : String
  nonterminals : Set String
  terminals : Set String
  rules : Set RuleKey

namespace Outline

variable {o : Outline} {keep : Set String} {u v w : List String} {x : String}

/-- What the start symbol and the rules mention is there. -/
structure Closed (o : Outline) : Prop where
  start : o.start ∈ o.nonterminals
  left : ∀ key ∈ o.rules, key.left ∈ o.nonterminals
  right : ∀ key ∈ o.rules, ∀ s ∈ key.right.symbols, s ∈ o.nonterminals ∨ s ∈ o.terminals

/-- The names say which symbols are nonterminals. -/
structure Named (o : Outline) : Prop where
  nonterminal : ∀ s ∈ o.nonterminals, SymbolKind.ofName? s = some .nonterminal
  terminal : ∀ s ∈ o.terminals, SymbolKind.ofName? s = some .terminal
  left : ∀ key ∈ o.rules, SymbolKind.ofName? key.left = some .nonterminal

theorem Named.not_terminal (h : o.Named) {s : String} (hs : s ∈ o.nonterminals) :
    s ∉ o.terminals := by
  intro ht
  have hkind := (h.nonterminal s hs).symm.trans (h.terminal s ht)
  simp at hkind

/-! ### Derivations -/

/-- One occurrence of the left side of a rule is replaced by its right side. -/
inductive Rewrites (o : Outline) : List String → List String → Prop
  | rule (before after : List String) {key : RuleKey} (h : key ∈ o.rules) :
      Rewrites o (before ++ key.left :: after) (before ++ (key.right.symbols ++ after))

/-- Any number of replacements, one after the other. -/
def Derives (o : Outline) : List String → List String → Prop := Relation.ReflTransGen o.Rewrites

/-- A word of terminals. -/
def IsTerminal (o : Outline) (w : List String) : Prop := ∀ s ∈ w, s ∈ o.terminals

/-- The words of terminals that the start symbol derives. -/
def language (o : Outline) : Set (List String) := {w | o.IsTerminal w ∧ o.Derives [o.start] w}

/-- The nonterminals that derive a word of terminals, and the start symbol. -/
def productive (o : Outline) : Set String :=
  {s | s ∈ o.nonterminals ∧ ((∃ w, o.IsTerminal w ∧ o.Derives [s] w) ∨ s = o.start)}

theorem Rewrites.mono {o' : Outline} (h : o.Rewrites u v) (hrules : o.rules ⊆ o'.rules) :
    o'.Rewrites u v := by
  cases h with
  | rule before after hkey => exact .rule before after (hrules hkey)

theorem Derives.mono {o' : Outline} (h : o.Derives u v) (hrules : o.rules ⊆ o'.rules) :
    o'.Derives u v :=
  Relation.ReflTransGen.mono (fun _ _ hstep => Rewrites.mono hstep hrules) _ _ h

theorem Rewrites.append (h : o.Rewrites u v) (before after : List String) :
    o.Rewrites (before ++ u ++ after) (before ++ v ++ after) := by
  cases h with
  | rule left right hkey =>
      have hrule := Rewrites.rule (before ++ left) (right ++ after) hkey
      simpa using hrule

/-- A derivation goes on between other symbols. -/
theorem Derives.append (h : o.Derives u v) (before after : List String) :
    o.Derives (before ++ u ++ after) (before ++ v ++ after) := by
  induction h with
  | refl => exact .refl
  | tail _ hstep ih => exact ih.tail (hstep.append before after)

/-! ### Generating nonterminals -/

/-- The nonterminals with a rule over terminals and generating nonterminals. -/
inductive Generating (o : Outline) : String → Prop
  | rule {key : RuleKey} (h : key ∈ o.rules)
      (right : ∀ s ∈ key.right.symbols, s ∈ o.nonterminals → o.Generating s) :
      o.Generating key.left

theorem Generating.mem (hclosed : o.Closed) (h : o.Generating x) : x ∈ o.nonterminals := by
  cases h with
  | rule hkey => exact hclosed.left _ hkey

/-- Words over symbols that derive words of terminals derive words of terminals. -/
theorem exists_derives_of_forall (u : List String)
    (h : ∀ s ∈ u, ∃ w, o.IsTerminal w ∧ o.Derives [s] w) :
    ∃ w, o.IsTerminal w ∧ o.Derives u w := by
  induction u with
  | nil => exact ⟨[], by simp [IsTerminal], .refl⟩
  | cons s u ih =>
      obtain ⟨w, hw, hderives⟩ := h s List.mem_cons_self
      obtain ⟨w', hw', hderives'⟩ := ih fun t ht => h t (List.mem_cons_of_mem _ ht)
      refine ⟨w ++ w', ?_, ?_⟩
      · intro t ht
        exact (List.mem_append.mp ht).elim (hw t) (hw' t)
      · have hhead : o.Derives (s :: u) (w ++ u) := hderives.append [] u
        have htail : o.Derives (w ++ u) (w ++ w') := by
          have happend := hderives'.append w []
          rwa [List.append_nil, List.append_nil] at happend
        exact hhead.trans htail

theorem Generating.exists_derives (hclosed : o.Closed) (h : o.Generating x) :
    ∃ w, o.IsTerminal w ∧ o.Derives [x] w := by
  induction h with
  | @rule key hkey _ ih =>
      have hright : ∀ s ∈ key.right.symbols, ∃ w, o.IsTerminal w ∧ o.Derives [s] w := by
        intro s hs
        rcases hclosed.right key hkey s hs with hn | ht
        · exact ih s hs hn
        · exact ⟨[s], by simpa [IsTerminal] using ht, .refl⟩
      obtain ⟨w, hw, hderives⟩ := exists_derives_of_forall _ hright
      have hrule := Rewrites.rule [] [] hkey
      simp only [List.nil_append, List.append_nil] at hrule
      exact ⟨w, hw, hderives.head hrule⟩

/-- Before a word of terminals, only generating nonterminals can occur in a derivation. -/
theorem Derives.generating (hnamed : o.Named) (hw : o.IsTerminal w) (h : o.Derives u w) :
    ∀ s ∈ u, s ∈ o.nonterminals → o.Generating s := by
  induction h using Relation.ReflTransGen.head_induction_on with
  | refl =>
      intro s hs hn
      exact absurd (hw s hs) (hnamed.not_terminal hn)
  | head hstep _ ih =>
      cases hstep with
      | rule before after hkey =>
          intro s hs hn
          rcases List.mem_append.mp hs with hs | hs
          · exact ih s (by simp [hs]) hn
          · rcases List.mem_cons.mp hs with rfl | hs
            · exact .rule hkey fun t ht => ih t (by simp [ht])
            · exact ih s (by simp [hs]) hn

theorem mem_productive (hclosed : o.Closed) (hnamed : o.Named) :
    x ∈ o.productive ↔ o.Generating x ∨ x = o.start := by
  constructor
  · intro hex
    obtain ⟨hmem, ⟨w, hw, hderives⟩ | rfl⟩ := hex
    · exact .inl (hderives.generating hnamed hw x (by simp) hmem)
    · exact .inr rfl
  · intro hex
    rcases hex with h | rfl
    · exact ⟨h.mem hclosed, .inl (h.exists_derives hclosed)⟩
    · exact ⟨hclosed.start, .inr rfl⟩

/-! ### Reachable nonterminals -/

/-- The nonterminals that some of the rules lead to from the start symbol. -/
inductive ReachableBy (o : Outline) (rules : Set RuleKey) : String → Prop
  | start : ReachableBy o rules o.start
  | rule {key : RuleKey} {s : String} (h : key ∈ rules) (left : ReachableBy o rules key.left)
      (right : s ∈ key.right.symbols) (nonterminal : s ∈ o.nonterminals) : ReachableBy o rules s

/-- The nonterminals that the rules lead to from the start symbol. -/
def Reachable (o : Outline) : Set String := {s | o.ReachableBy o.rules s}

theorem ReachableBy.mem {rules : Set RuleKey} (hstart : o.start ∈ o.nonterminals)
    (h : o.ReachableBy rules x) : x ∈ o.nonterminals := by
  cases h with
  | start => exact hstart
  | rule _ _ _ hn => exact hn

/-- Behind the start symbol, only reachable nonterminals can occur in a derivation. -/
theorem Derives.reachable (hclosed : o.Closed) (h : o.Derives [o.start] u) :
    ∀ s ∈ u, s ∈ o.nonterminals → s ∈ o.Reachable := by
  induction h with
  | refl =>
      intro s hs _
      rw [List.mem_singleton.mp hs]
      exact .start
  | tail _ hstep ih =>
      cases hstep with
      | @rule before after key hkey =>
          have hleft : o.ReachableBy o.rules key.left :=
            ih key.left (by simp) (hclosed.left key hkey)
          intro s hs hn
          rcases List.mem_append.mp hs with hs | hs
          · exact ih s (by simp [hs]) hn
          · rcases List.mem_append.mp hs with hs | hs
            · exact .rule hkey hleft hs hn
            · exact ih s (by simp [hs]) hn

/-! ### Restrictions -/

/-- The outline without the rules that replace a symbol by itself alone. -/
def dropLoops (o : Outline) : Outline := { o with rules := {key ∈ o.rules | key.isLoop = false} }

/-- All nonterminals that the rule mentions are in the set. -/
def Within (o : Outline) (keep : Set String) (key : RuleKey) : Prop :=
  ∀ s ∈ key.left :: key.right.symbols, s ∈ o.nonterminals → s ∈ keep

/-- The outline without the nonterminals outside the set and the rules that mention one of them. -/
def within (o : Outline) (keep : Set String) : Outline :=
  { o with
    nonterminals := {s ∈ o.nonterminals | s ∈ keep}
    rules := {key ∈ o.rules | o.Within keep key} }

theorem dropLoops_rules_subset (o : Outline) : o.dropLoops.rules ⊆ o.rules := fun _ h => h.1

theorem within_rules_subset (o : Outline) (keep : Set String) :
    (o.within keep).rules ⊆ o.rules := fun _ h => h.1

theorem Named.dropLoops (h : o.Named) : o.dropLoops.Named :=
  ⟨h.nonterminal, h.terminal, fun key hkey => h.left key hkey.1⟩

theorem Named.within (h : o.Named) (keep : Set String) : (o.within keep).Named :=
  ⟨fun s hs => h.nonterminal s hs.1, h.terminal, fun key hkey => h.left key hkey.1⟩

theorem Closed.dropLoops (h : o.Closed) : o.dropLoops.Closed :=
  ⟨h.start, fun key hkey => h.left key hkey.1, fun key hkey => h.right key hkey.1⟩

/-- No reference is left to what was taken away. -/
theorem Closed.within (h : o.Closed) (hstart : o.start ∈ keep) : (o.within keep).Closed := by
  refine ⟨⟨h.start, hstart⟩, ?_, ?_⟩
  · intro key hkey
    exact ⟨h.left key hkey.1, hkey.2 key.left List.mem_cons_self (h.left key hkey.1)⟩
  · intro key hkey s hs
    rcases h.right key hkey.1 s hs with hn | ht
    · exact .inl ⟨hn, hkey.2 s (List.mem_cons_of_mem _ hs) hn⟩
    · exact .inr ht

theorem language_subset {o' : Outline} (hstart : o'.start = o.start)
    (hterminals : o'.terminals = o.terminals) (hrules : o'.rules ⊆ o.rules) :
    o'.language ⊆ o.language := by
  intro w h
  obtain ⟨hw, hderives⟩ := h
  rw [hstart] at hderives
  exact ⟨fun s hs => hterminals ▸ hw s hs, hderives.mono hrules⟩

/-- A step with a loop changes nothing, so it can be left out. -/
theorem Rewrites.dropLoops (h : o.Rewrites u v) : u = v ∨ o.dropLoops.Rewrites u v := by
  cases h with
  | @rule before after key hkey =>
      by_cases hloop : key.isLoop
      · have hright : key.right.symbols = [key.left] := by simpa [RuleKey.isLoop] using hloop
        exact .inl (by simp [hright])
      · exact .inr (.rule before after ⟨hkey, by simpa using hloop⟩)

theorem Derives.dropLoops (h : o.Derives u v) : o.dropLoops.Derives u v := by
  induction h with
  | refl => exact .refl
  | tail _ hstep ih =>
      rcases hstep.dropLoops with rfl | hstep
      · exact ih
      · exact ih.tail hstep

theorem language_dropLoops (o : Outline) : o.dropLoops.language = o.language := by
  refine Set.Subset.antisymm (language_subset rfl rfl o.dropLoops_rules_subset) ?_
  intro w h
  obtain ⟨hw, hderives⟩ := h
  exact ⟨hw, hderives.dropLoops⟩

theorem productive_dropLoops (o : Outline) : o.dropLoops.productive = o.productive := by
  ext s
  constructor
  · intro h
    obtain ⟨hmem, ⟨w, hw, hderives⟩ | hstart⟩ := h
    · exact ⟨hmem, .inl ⟨w, hw, hderives.mono o.dropLoops_rules_subset⟩⟩
    · exact ⟨hmem, .inr hstart⟩
  · intro h
    obtain ⟨hmem, ⟨w, hw, hderives⟩ | hstart⟩ := h
    · exact ⟨hmem, .inl ⟨w, hw, hderives.dropLoops⟩⟩
    · exact ⟨hmem, .inr hstart⟩

/-- A derivation uses no rule outside a set that holds every nonterminal on its way. -/
theorem Rewrites.within (h : o.Rewrites u v) (hu : ∀ s ∈ u, s ∈ o.nonterminals → s ∈ keep)
    (hv : ∀ s ∈ v, s ∈ o.nonterminals → s ∈ keep) : (o.within keep).Rewrites u v := by
  cases h with
  | @rule before after key hkey =>
      refine .rule before after ⟨hkey, ?_⟩
      intro s hs
      rcases List.mem_cons.mp hs with rfl | hs
      · exact hu key.left (by simp)
      · exact hv s (by simp [hs])

/-- Only productive nonterminals are on the way to a word of terminals. -/
theorem Derives.within_productive (hclosed : o.Closed) (hnamed : o.Named) (hw : o.IsTerminal w)
    (h : o.Derives u w) : (o.within o.productive).Derives u w := by
  have hkeep : ∀ u, o.Derives u w → ∀ s ∈ u, s ∈ o.nonterminals → s ∈ o.productive :=
    fun u hu s hs hn => (mem_productive hclosed hnamed).mpr (.inl (hu.generating hnamed hw s hs hn))
  induction h using Relation.ReflTransGen.head_induction_on with
  | refl => exact .refl
  | head hstep hrest ih =>
      exact ih.head (hstep.within (hkeep _ (.head hstep hrest)) (hkeep _ hrest))

theorem language_within_productive (hclosed : o.Closed) (hnamed : o.Named) :
    (o.within o.productive).language = o.language := by
  refine Set.Subset.antisymm (language_subset rfl rfl (o.within_rules_subset _)) ?_
  intro w h
  obtain ⟨hw, hderives⟩ := h
  exact ⟨hw, hderives.within_productive hclosed hnamed hw⟩

/-- Only reachable nonterminals are on the way from the start symbol. -/
theorem Derives.within_reachable (hclosed : o.Closed) (h : o.Derives [o.start] u) :
    (o.within o.Reachable).Derives [o.start] u := by
  induction h with
  | refl => exact .refl
  | tail hstart hstep ih =>
      exact ih.tail (hstep.within (Derives.reachable hclosed hstart)
        (Derives.reachable hclosed (hstart.tail hstep)))

theorem language_within_reachable (hclosed : o.Closed) :
    (o.within o.Reachable).language = o.language := by
  refine Set.Subset.antisymm (language_subset rfl rfl (o.within_rules_subset _)) ?_
  intro w h
  obtain ⟨hw, hderives⟩ := h
  exact ⟨hw, hderives.within_reachable hclosed⟩

/-! ### The reduced outline -/

/-- The outline with the rules in which every nonterminal is productive and no symbol is replaced
by itself alone. -/
def generatingPart (o : Outline) : Outline := o.dropLoops.within o.productive

/-- The outline without loops, unproductive and unreachable nonterminals. -/
def reduced (o : Outline) : Outline := o.generatingPart.within o.generatingPart.Reachable

theorem start_mem_productive (hclosed : o.Closed) : o.start ∈ o.productive :=
  ⟨hclosed.start, .inr rfl⟩

theorem Closed.generatingPart (h : o.Closed) : o.generatingPart.Closed :=
  h.dropLoops.within (start_mem_productive h)

theorem Closed.reduced (h : o.Closed) : o.reduced.Closed := h.generatingPart.within .start

theorem Named.generatingPart (h : o.Named) : o.generatingPart.Named := h.dropLoops.within _

theorem Named.reduced (h : o.Named) : o.reduced.Named := h.generatingPart.within _

/-- **Reduction keeps the language.** -/
theorem language_reduced (hclosed : o.Closed) (hnamed : o.Named) :
    o.reduced.language = o.language := by
  rw [reduced, language_within_reachable hclosed.generatingPart, generatingPart,
    ← o.productive_dropLoops, language_within_productive hclosed.dropLoops hnamed.dropLoops,
    language_dropLoops]

theorem mem_nonterminals_reduced (hclosed : o.Closed) :
    x ∈ o.reduced.nonterminals ↔ x ∈ o.generatingPart.Reachable := by
  constructor
  · exact fun h => h.2
  · exact fun h => ⟨ReachableBy.mem hclosed.generatingPart.start h, h⟩

/-- The rules of the reduced outline: no loops, the left side reachable, and all nonterminals
productive. -/
theorem mem_rules_reduced (hclosed : o.Closed) {key : RuleKey} :
    key ∈ o.reduced.rules ↔ key ∈ o.rules ∧ key.isLoop = false ∧
      key.left ∈ o.generatingPart.Reachable ∧
      ∀ s ∈ key.right.symbols, s ∈ o.nonterminals → s ∈ o.productive := by
  constructor
  · intro h
    obtain ⟨⟨⟨hkey, hloop⟩, hwithin⟩, hreach⟩ := h
    have hleft := hclosed.left key hkey
    refine ⟨hkey, hloop, ?_, fun s hs => hwithin s (List.mem_cons_of_mem _ hs)⟩
    exact hreach key.left List.mem_cons_self ⟨hleft, hwithin key.left List.mem_cons_self hleft⟩
  · intro h
    obtain ⟨hkey, hloop, hleft, hright⟩ := h
    have hmem := ReachableBy.mem hclosed.generatingPart.start hleft
    have hrule : key ∈ o.generatingPart.rules := by
      refine ⟨⟨hkey, hloop⟩, fun s hs hn => ?_⟩
      rcases List.mem_cons.mp hs with rfl | hs
      · exact hmem.2
      · exact hright s hs hn
    refine ⟨hrule, fun s hs hn => ?_⟩
    rcases List.mem_cons.mp hs with rfl | hs
    · exact hleft
    · exact .rule hrule hleft hs hn

/-- What the rules between productive nonterminals lead to. -/
theorem reachable_generatingPart (o : Outline) :
    o.generatingPart.Reachable = {x | o.ReachableBy
      {key ∈ o.rules | key.isLoop = false ∧ o.Within o.productive key} x} := by
  ext x
  constructor
  · intro h
    induction h with
    | start => exact .start
    | rule hkey _ hright hn ih => exact .rule ⟨hkey.1.1, hkey.1.2, hkey.2⟩ ih hright hn.1
  · intro h
    induction h with
    | start => exact .start
    | rule hkey _ hright hn ih =>
        exact .rule ⟨⟨hkey.1, hkey.2.1⟩, hkey.2.2⟩ ih hright
          ⟨hn, hkey.2.2 _ (List.mem_cons_of_mem _ hright) hn⟩

/-! ### Nothing is left to reduce -/

theorem Generating.dropLoops (h : o.Generating x) (hclosed : o.Closed) :
    o.dropLoops.Generating x := by
  induction h with
  | @rule key hkey _ ih =>
      by_cases hloop : key.isLoop
      · have hright : key.right.symbols = [key.left] := by simpa [RuleKey.isLoop] using hloop
        exact ih key.left (by simp [hright]) (hclosed.left key hkey)
      · exact .rule ⟨hkey, by simpa using hloop⟩ ih

/-- A nonterminal is generating by rules between generating nonterminals. -/
theorem Generating.within_productive (h : o.Generating x) (hclosed : o.Closed) (hnamed : o.Named) :
    (o.within o.productive).Generating x := by
  induction h with
  | @rule key hkey hright ih =>
      refine .rule ⟨hkey, ?_⟩ fun s hs hn => ih s hs hn.1
      intro s hs hn
      rw [mem_productive hclosed hnamed]
      rcases List.mem_cons.mp hs with rfl | hs
      · exact .inl (.rule hkey hright)
      · exact .inl (hright s hs hn)

/-- The rules of a reachable nonterminal mention reachable nonterminals only. -/
theorem within_of_left {key : RuleKey} (hkey : key ∈ o.rules) (hleft : key.left ∈ o.Reachable) :
    o.Within o.Reachable key := by
  intro s hs hn
  rcases List.mem_cons.mp hs with rfl | hs
  · exact hleft
  · exact .rule hkey hleft hs hn

theorem Generating.within_reachable (h : o.Generating x) (hx : x ∈ o.Reachable) :
    (o.within o.Reachable).Generating x := by
  induction h with
  | rule hkey hright ih =>
      exact .rule ⟨hkey, within_of_left hkey hx⟩ fun s hs hn => ih s hs hn.1 hn.2

theorem ReachableBy.within_reachable (h : o.ReachableBy o.rules x) :
    x ∈ (o.within o.Reachable).Reachable := by
  induction h with
  | start => exact .start
  | rule hkey hleft hright hn ih =>
      exact .rule ⟨hkey, within_of_left hkey hleft⟩ ih hright ⟨hn, .rule hkey hleft hright hn⟩

/-- There is nothing to reduce: no rule replaces a symbol by itself alone, and all nonterminals are
reachable and, the start symbol apart, generating. -/
structure IsReduced (o : Outline) : Prop where
  loops : ∀ key ∈ o.rules, key.isLoop = false
  generating : ∀ s ∈ o.nonterminals, o.Generating s ∨ s = o.start
  reachable : ∀ s ∈ o.nonterminals, s ∈ o.Reachable

theorem isReduced_reduced (hclosed : o.Closed) (hnamed : o.Named) : o.reduced.IsReduced := by
  refine ⟨fun key hkey => hkey.1.1.2, ?_, fun s hs => ReachableBy.within_reachable hs.2⟩
  intro s hs
  rcases (mem_productive hclosed hnamed).mp hs.1.2 with hgen | hstart
  · have hpart := (hgen.dropLoops hclosed).within_productive hclosed.dropLoops hnamed.dropLoops
    rw [o.productive_dropLoops] at hpart
    exact .inl (Generating.within_reachable hpart hs.2)
  · exact .inr hstart

theorem within_eq_self (h : ∀ s ∈ o.nonterminals, s ∈ keep) :
    o.within keep = o := by
  ext s
  · rfl
  · exact ⟨fun hs => hs.1, fun hs => ⟨hs, h s hs⟩⟩
  · rfl
  · exact ⟨fun hs => hs.1, fun hs => ⟨hs, fun t _ hn => h t hn⟩⟩

/-- Reducing what is reduced changes nothing. -/
theorem IsReduced.reduced_eq (h : o.IsReduced) (hclosed : o.Closed) (hnamed : o.Named) :
    o.reduced = o := by
  have hloops : o.dropLoops = o := by
    ext s
    · rfl
    · rfl
    · rfl
    · exact ⟨fun hs => hs.1, fun hs => ⟨hs, h.loops s hs⟩⟩
  have hpart : o.generatingPart = o := by
    rw [generatingPart, hloops]
    exact within_eq_self fun s hs => (mem_productive hclosed hnamed).mpr (h.generating s hs)
  rw [reduced, hpart]
  exact within_eq_self h.reachable

end Outline

end Chronicle
