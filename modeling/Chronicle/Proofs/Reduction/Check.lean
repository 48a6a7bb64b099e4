import Chronicle.Proofs.Reduction.Steps
/-!
The test for the reduced form.

`Reduction.check` computes the two sets of the reduction once more, each by passes over all rules
that stop when a pass adds nothing, and compares their sizes with the number of nonterminals.
Passes that are repeated without a bound stop as well (`Settles`), and at the same set: what they
add is bounded by the left sides, or by the nonterminals, so one of them adds nothing before the
bound is used up (`settles_saturate`).
-/

namespace Chronicle

/-! ### The size of a set -/

namespace SortedSet

variable {s t : SortedSet String}

theorem members_eq_toFinset (s : SortedSet String) : s.members = s.toList.toFinset := by
  ext x
  simp [mem_members, contains_iff]

theorem finite_members (s : SortedSet String) : s.members.Finite := by
  rw [members_eq_toFinset]
  exact Finset.finite_toSet _

/-- No element is counted twice. -/
theorem ncard_members (s : SortedSet String) : s.members.ncard = s.size := by
  have hnodup : s.toList.Nodup := s.map.nodup_keys
  rw [members_eq_toFinset, Set.ncard_coe_finset, List.toFinset_card_of_nodup hnodup]
  simp [toList, SortedMap.keys, size, SortedMap.size]

end SortedSet

namespace Grammar

/-- The number of nonterminals. -/
theorem ncard_nonterminals (g : Grammar) : g.outline.nonterminals.ncard = g.nonterminalCount := by
  have hmembers : g.outline.nonterminals
      = (⟨g.nonterminals.mapValues fun _ _ => ()⟩ : SortedSet String).members := by
    ext x
    rw [SortedSet.mem_members, ← hasNonterminal_iff, SortedSet.contains, SortedMap.contains,
      SortedMap.get?_mapValues, hasNonterminal, SortedMap.contains, Option.isSome_map]
  rw [hmembers, SortedSet.ncard_members]
  simp [SortedSet.size, SortedMap.size, SortedMap.mapValues, nonterminalCount]

end Grammar

namespace Reduction

variable {pass : SortedSet String → SortedSet String} {set : SortedSet String}
  {bound : Set String} {rounds : Nat} {g : Grammar}

/-! ### Passes -/

/-- Passes that are repeated until one adds nothing come to an end, and leave this set.  Nothing
bounds their number. -/
inductive Settles (pass : SortedSet String → SortedSet String) :
    SortedSet String → SortedSet String → Prop
  | last {set : SortedSet String} (h : (pass set).size = set.size) : Settles pass set (pass set)
  | again {set final : SortedSet String} (h : (pass set).size ≠ set.size)
      (rest : Settles pass (pass set) final) : Settles pass set final

theorem Settles.unique {final final' : SortedSet String} (h : Settles pass set final)
    (h' : Settles pass set final') : final = final' := by
  induction h with
  | last hsize =>
      cases h' with
      | last => rfl
      | again hsize' => exact absurd hsize hsize'
  | again hsize _ ih =>
      cases h' with
      | last hsize' => exact absurd hsize' hsize
      | again _ rest' => exact ih rest'

/-- A set that a pass adds nothing to is the one that the pass leaves. -/
theorem eq_of_size_eq (hgrow : ∀ set, set.members ⊆ (pass set).members)
    (hsize : (pass set).size = set.size) : pass set = set := by
  have hmembers : set.members = (pass set).members :=
    Set.eq_of_subset_of_ncard_le (hgrow set)
      (by rw [SortedSet.ncard_members, SortedSet.ncard_members, hsize])
      (pass set).finite_members
  exact SortedSet.ext_contains fun x => Bool.eq_iff_iff.mpr (Set.ext_iff.mp hmembers.symm x)

/-- **The set that the passes end with is one that a pass adds nothing to**, and nothing comes into
it but what the passes keep within `bound`. -/
theorem Settles.closed {final : SortedSet String} (h : Settles pass set final)
    (hgrow : ∀ set, set.members ⊆ (pass set).members)
    (hkeep : ∀ set, set.members ⊆ bound → (pass set).members ⊆ bound)
    (hset : set.members ⊆ bound) :
    set.members ⊆ final.members ∧ final.members ⊆ bound ∧ pass final = final := by
  induction h with
  | @last set hsize =>
      have hsame := eq_of_size_eq hgrow hsize
      rw [hsame]
      exact ⟨.rfl, hset, hsame⟩
  | @again set final _ _ ih =>
      obtain ⟨hsub, hrest⟩ := ih (hkeep set hset)
      exact ⟨(hgrow set).trans hsub, hrest⟩

/-- **Passes that stay within `bound` end before it is used up.** -/
theorem settles_saturate (hgrow : ∀ set, set.members ⊆ (pass set).members)
    (hkeep : ∀ set, set.members ⊆ bound → (pass set).members ⊆ bound) (hfinite : bound.Finite)
    (hset : set.members ⊆ bound) (hrounds : bound.ncard < set.size + rounds) :
    Settles pass set (saturate pass rounds set) := by
  induction rounds generalizing set with
  | zero =>
      have hcard := Set.ncard_le_ncard hset hfinite
      rw [SortedSet.ncard_members] at hcard
      omega
  | succ rounds ih =>
      have hle := Set.ncard_le_ncard (hgrow set) (pass set).finite_members
      rw [SortedSet.ncard_members, SortedSet.ncard_members] at hle
      unfold saturate
      by_cases hsize : (pass set).size = set.size
      · simp only [hsize, if_true]
        exact .last hsize
      · simp only [hsize, if_false]
        exact .again hsize (ih (hkeep set hset) (by omega))

/-- What a pass adds to a set, rule by rule: in the end all that the rules find over the set that
the pass began with is there, and nothing but what they find over what was there before. -/
theorem members_foldl {add : SortedSet String → Rule → SortedSet String}
    {found : Set String → Rule → Set String} (rules : List Rule)
    (hadd : ∀ set rule, (add set rule).members = set.members ∪ found set.members rule)
    (hmono : ∀ known known' rule, known ⊆ known' → found known rule ⊆ found known' rule)
    (hkeep : ∀ known, known ⊆ bound → ∀ rule ∈ rules, found known rule ⊆ bound)
    (set : SortedSet String) :
    set.members ⊆ (rules.foldl add set).members ∧
      (set.members ⊆ bound → (rules.foldl add set).members ⊆ bound) ∧
      ∀ rule ∈ rules, found set.members rule ⊆ (rules.foldl add set).members := by
  induction rules generalizing set with
  | nil => exact ⟨.rfl, id, by simp⟩
  | cons rule rules ih =>
      obtain ⟨hsub, hbound, hfound⟩ :=
        ih (fun known hknown rule hrule => hkeep known hknown rule (List.mem_cons_of_mem _ hrule))
          (add set rule)
      rw [hadd] at hsub hbound hfound
      refine ⟨Set.subset_union_left.trans hsub, fun hset => ?_, fun rule' hrule' => ?_⟩
      · exact hbound (Set.union_subset hset (hkeep _ hset rule List.mem_cons_self))
      · rcases List.mem_cons.mp hrule' with rfl | hrule'
        · exact Set.subset_union_right.trans hsub
        · exact (hmono _ _ rule' Set.subset_union_left).trans (hfound rule' hrule')

/-- The passes over the rules of a grammar end with a set over which the rules find nothing more. -/
theorem closed_saturate_rules {add : SortedSet String → Rule → SortedSet String}
    (found : Set String → Rule → Set String) (g : Grammar) (bound : Set String)
    (hadd : ∀ set rule, (add set rule).members = set.members ∪ found set.members rule)
    (hmono : ∀ known known' rule, known ⊆ known' → found known rule ⊆ found known' rule)
    (hkeep : ∀ known, known ⊆ bound → ∀ rule ∈ g.ruleList, found known rule ⊆ bound)
    (hfinite : bound.Finite) (hset : set.members ⊆ bound)
    (hrounds : bound.ncard < set.size + rounds) :
    Settles (g.ruleList.foldl add) set (saturate (g.ruleList.foldl add) rounds set) ∧
      set.members ⊆ (saturate (g.ruleList.foldl add) rounds set).members ∧
      (saturate (g.ruleList.foldl add) rounds set).members ⊆ bound ∧
      ∀ rule ∈ g.ruleList, found (saturate (g.ruleList.foldl add) rounds set).members rule ⊆
        (saturate (g.ruleList.foldl add) rounds set).members := by
  have hpass := members_foldl g.ruleList hadd hmono hkeep
  have hsettles := settles_saturate (fun set => (hpass set).1) (fun set => (hpass set).2.1) hfinite
    hset hrounds
  obtain ⟨hsub, hbound, hfixed⟩ :=
    hsettles.closed (fun set => (hpass set).1) (fun set => (hpass set).2.1) hset
  refine ⟨hsettles, hsub, hbound, fun rule hrule => ?_⟩
  have hfound := (hpass (saturate (g.ruleList.foldl add) rounds set)).2.2 rule hrule
  rwa [hfixed] at hfound

theorem mem_rules_of_mem_ruleList {rule : Rule} (h : rule ∈ g.ruleList) :
    rule.key ∈ g.outline.rules :=
  Grammar.mem_ruleList_map.mp (List.mem_map_of_mem h)

/-! ### The sets of the test -/

/-- What a rule adds to the nonterminals that are known to be generating. -/
def addGenerating (g : Grammar) (set : SortedSet String) (rule : Rule) : SortedSet String :=
  if generates g set.contains rule.key.right then set.insert rule.key.left else set

/-- What a rule adds to the nonterminals that are known to be reachable. -/
def addReachable (g : Grammar) (set : SortedSet String) (rule : Rule) : SortedSet String :=
  if set.contains rule.key.left then
    set.insertAll (rule.key.right.symbols.filter g.hasNonterminal)
  else set

theorem members_addGenerating (set : SortedSet String) (rule : Rule) :
    (addGenerating g set rule).members = set.members ∪ {x | x = rule.key.left ∧
      ∀ s ∈ rule.key.right.symbols, s ∈ g.outline.nonterminals → s ∈ set.members} := by
  have hiff : generates g set.contains rule.key.right = true ↔
      ∀ s ∈ rule.key.right.symbols, s ∈ g.outline.nonterminals → s ∈ set.members :=
    generates_iff rfl
  rw [← hiff, addGenerating]
  split
  · next h =>
      rw [SortedSet.members_insert, Set.insert_eq, Set.union_comm]
      simp [h]
  · next h => simp [h]

theorem members_addReachable (set : SortedSet String) (rule : Rule) :
    (addReachable g set rule).members = set.members ∪ {x | rule.key.left ∈ set.members ∧
      x ∈ rule.key.right.symbols ∧ x ∈ g.outline.nonterminals} := by
  ext x
  unfold addReachable
  by_cases h : set.contains rule.key.left = true
  · rw [if_pos h]
    simp [SortedSet.mem_members, SortedSet.contains_insertAll, h, Grammar.hasNonterminal_iff,
      or_comm]
  · rw [if_neg h]
    simp [SortedSet.mem_members, h]

/-- The passes end, and find the generating nonterminals. -/
theorem settles_generating (hclosed : g.outline.Closed) :
    Settles (g.ruleList.foldl (addGenerating g)) .empty (generating g) ∧
      (generating g).members = {x | g.outline.Generating x} := by
  have hsub : {x | g.outline.Generating x} ⊆ g.outline.nonterminals :=
    fun x hx => Outline.Generating.mem hclosed hx
  -- There are no more generating nonterminals than left sides.
  have hcount : {x | g.outline.Generating x}.ncard ≤ g.rules.size := by
    have hlefts : {x | g.outline.Generating x} ⊆ g.rules.keys.toFinset := by
      intro x h
      obtain ⟨⟨tag, htag⟩, -⟩ := h
      obtain ⟨group, hgroup, -⟩ := Grammar.ruleTag?_eq_some.mp htag
      simpa using SortedMap.mem_keys_iff.mpr ⟨group, hgroup⟩
    refine (Set.ncard_le_ncard hlefts (Finset.finite_toSet _)).trans ?_
    rw [Set.ncard_coe_finset]
    refine (List.toFinset_card_le _).trans ?_
    simp [SortedMap.keys, SortedMap.size]
  have hempty : SortedSet.empty.members ⊆ {x | g.outline.Generating x} := by
    rw [SortedSet.members_empty]
    exact Set.empty_subset _
  have hrounds : {x | g.outline.Generating x}.ncard
      < (.empty : SortedSet String).size + (g.rules.size + 1) := by
    show _ < 0 + _
    omega
  obtain ⟨hsettles, -, hbound, hfixed⟩ := closed_saturate_rules
    (fun known rule => {x | x = rule.key.left ∧
      ∀ s ∈ rule.key.right.symbols, s ∈ g.outline.nonterminals → s ∈ known})
    g {x | g.outline.Generating x} members_addGenerating
    (fun known known' rule hknown x hx => ⟨hx.1, fun s hs hn => hknown (hx.2 s hs hn)⟩)
    (fun known hknown rule hrule x hx => hx.1 ▸
      .rule (mem_rules_of_mem_ruleList hrule) fun s hs hn => hknown (hx.2 s hs hn))
    (g.finite_nonterminals.subset hsub) hempty hrounds
  refine ⟨hsettles, Set.Subset.antisymm hbound fun x hx =>
    Outline.Generating.mem_of_closed hx ?_⟩
  intro y hy
  obtain ⟨key, hkey, rfl, hright⟩ := hy
  obtain ⟨rule, hrule, rfl⟩ := List.mem_map.mp (Grammar.mem_ruleList_map.mpr hkey)
  exact hfixed rule hrule ⟨rfl, hright⟩

/-- **The passes find the generating nonterminals.** -/
theorem members_generating (hclosed : g.outline.Closed) :
    (generating g).members = {x | g.outline.Generating x} :=
  (settles_generating hclosed).2

/-- The passes end, and find the reachable nonterminals. -/
theorem settles_reachable (hclosed : g.outline.Closed) :
    Settles (g.ruleList.foldl (addReachable g)) (.ofList [g.start]) (reachable g) ∧
      (reachable g).members = g.outline.Reachable := by
  have hsub : g.outline.Reachable ⊆ g.outline.nonterminals :=
    fun x hx => Outline.ReachableBy.mem hclosed.start hx
  have hstart : (SortedSet.ofList [g.start]).members = {g.outline.start} := by
    ext x
    simp [SortedSet.mem_members, SortedSet.contains_ofList, Grammar.outline, Outline.ofEntries]
  have hinit : (SortedSet.ofList [g.start]).members ⊆ g.outline.Reachable := by
    rw [hstart]
    exact Set.singleton_subset_iff.mpr .start
  have hrounds : g.outline.Reachable.ncard
      < (SortedSet.ofList [g.start]).size + (g.nonterminals.size + 1) := by
    have hcount := Set.ncard_le_ncard hsub g.finite_nonterminals
    rw [g.ncard_nonterminals, Grammar.nonterminalCount] at hcount
    omega
  obtain ⟨hsettles, hgrown, hbound, hfixed⟩ := closed_saturate_rules
    (fun known rule => {x | rule.key.left ∈ known ∧ x ∈ rule.key.right.symbols ∧
      x ∈ g.outline.nonterminals})
    g g.outline.Reachable members_addReachable
    (fun known known' rule hknown x hx => ⟨hknown hx.1, hx.2⟩)
    (fun known hknown rule hrule x hx =>
      .rule (mem_rules_of_mem_ruleList hrule) (hknown hx.1) hx.2.1 hx.2.2)
    (g.finite_nonterminals.subset hsub) hinit hrounds
  refine ⟨hsettles, Set.Subset.antisymm hbound fun x hx =>
    Outline.ReachableBy.mem_of_closed hx ?_ ?_⟩
  · exact hgrown (hstart ▸ rfl)
  · intro y hy
    obtain ⟨key, hkey, hleft, hright⟩ := hy
    obtain ⟨rule, hrule, rfl⟩ := List.mem_map.mp (Grammar.mem_ruleList_map.mpr hkey)
    exact hfixed rule hrule ⟨hleft, hright⟩

/-- **The passes find the reachable nonterminals.** -/
theorem members_reachable (hclosed : g.outline.Closed) :
    (reachable g).members = g.outline.Reachable :=
  (settles_reachable hclosed).2

/-! ### The test -/

/-- All nonterminals with the possible exception of the start symbol are in a set, told from its
size. -/
theorem size_iff {o : Outline} (hfinite : o.nonterminals.Finite) (hstart : o.start ∈ o.nonterminals)
    {known : Set String} (hknown : known ⊆ o.nonterminals) :
    (known.ncard = o.nonterminals.ncard ∨
      known.ncard + 1 = o.nonterminals.ncard ∧ o.start ∉ known) ↔
      ∀ s ∈ o.nonterminals, s ∈ known ∨ s = o.start := by
  constructor
  · intro hmem s hs
    rcases hmem with heq | ⟨heq, hout⟩
    · rw [← Set.eq_of_subset_of_ncard_le hknown heq.ge hfinite] at hs
      exact .inl hs
    · have hinsert : insert o.start known = o.nonterminals := by
        refine Set.eq_of_subset_of_ncard_le (Set.insert_subset hstart hknown) ?_ hfinite
        rw [Set.ncard_insert_of_notMem hout (hfinite.subset hknown), heq]
      exact ((hinsert ▸ hs : s ∈ insert o.start known)).symm
  · intro hall
    by_cases hin : o.start ∈ known
    · refine .inl (congrArg Set.ncard (Set.Subset.antisymm hknown fun s hs => ?_))
      rcases hall s hs with h | rfl
      · exact h
      · exact hin
    · have hinsert : insert o.start known = o.nonterminals :=
        Set.Subset.antisymm (Set.insert_subset hstart hknown) fun s hs => (hall s hs).symm
      refine .inr ⟨?_, hin⟩
      rw [← hinsert, Set.ncard_insert_of_notMem hin (hfinite.subset hknown)]

/-- **The test holds exactly of the grammars with nothing to reduce.** -/
theorem check_iff (hclosed : g.outline.Closed) : check g = true ↔ g.outline.IsReduced := by
  have hgenerating : {x | g.outline.Generating x} ⊆ g.outline.nonterminals :=
    fun x hx => Outline.Generating.mem hclosed hx
  have hreachable : g.outline.Reachable ⊆ g.outline.nonterminals :=
    fun x hx => Outline.ReachableBy.mem hclosed.start hx
  have hloops : g.ruleList.any (·.key.isLoop) = false ↔
      ∀ key ∈ g.outline.rules, key.isLoop = false := by
    rw [List.any_eq_false]
    constructor
    · intro h key hkey
      obtain ⟨rule, hrule, rfl⟩ := List.mem_map.mp (Grammar.mem_ruleList_map.mpr hkey)
      simpa using h rule hrule
    · intro h rule hrule
      simpa using h rule.key (mem_rules_of_mem_ruleList hrule)
  have hstart : (generating g).contains g.start = false ↔
      g.outline.start ∉ {x | g.outline.Generating x} := by
    rw [← members_generating hclosed, SortedSet.mem_members, Bool.not_eq_true]
    rfl
  have hall : (reachable g).size = g.nonterminalCount ↔
      ∀ s ∈ g.outline.nonterminals, s ∈ g.outline.Reachable := by
    rw [← SortedSet.ncard_members, members_reachable hclosed, ← g.ncard_nonterminals]
    constructor
    · intro heq s hs
      rwa [← Set.eq_of_subset_of_ncard_le hreachable heq.ge g.finite_nonterminals] at hs
    · exact fun h => congrArg Set.ncard (Set.Subset.antisymm hreachable h)
  have hsize := size_iff g.finite_nonterminals hclosed.start hgenerating
  rw [← members_generating hclosed, SortedSet.ncard_members, g.ncard_nonterminals,
    members_generating hclosed] at hsize
  unfold check
  simp only [Bool.and_eq_true, Bool.or_eq_true, Bool.not_eq_true', decide_eq_true_eq, hloops,
    hstart, hall, hsize]
  constructor
  · intro hmem
    obtain ⟨⟨hl, hg⟩, hr⟩ := hmem
    exact ⟨hl, hg, hr⟩
  · intro hmem
    obtain ⟨hl, hg, hr⟩ := hmem
    exact ⟨⟨hl, hg⟩, hr⟩

end Reduction

end Chronicle
