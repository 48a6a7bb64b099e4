import Chronicle.Procedure.LoopRemoval
import Chronicle.Proofs.Reduction.Drafts
/-!
What the steps of loop removal make of their states.

The first step lists the loops of the grammar that it is given, and hands on that grammar with its
proposals made true.  From then on every step finds the grammar without the loops that are removed
already, and in the set the left sides of these (`Stage`).  A removing step takes the next loop off
the queue and proposes its removal, and with that the next stage is reached (`Stage.exists_next`).
Only if that loop is not there any more, the step fails (`removeNext_fails`).
-/

namespace Chronicle

namespace Scratch

theorem get?_insert (d : Scratch) (kind : Kind) (key : String) (content : kind.Content) :
    (d.insert kind key content).get? kind key = some content := by
  rw [insert, get?, SortedMap.get?_insert, if_pos rfl, Option.bind_some, Value.as?_of]

/-- What is there is looked up, and nothing is changed. -/
theorem getOrInsert_of_get? {d : Scratch} {kind : Kind} {key : String} {content : kind.Content}
    (h : d.get? kind key = some content) (default : kind.Content) :
    d.getOrInsert kind key default = (content, d) := by
  rw [getOrInsert, h]

end Scratch

/-- A rule can be taken away. -/
theorem Outline.Closed.without_rule {o : Outline} (h : o.Closed) (key : RuleKey) :
    (o.without {.rule key}).Closed := by
  refine ⟨⟨h.start, by simp⟩, ?_, ?_⟩
  · exact fun key' hkey' => ⟨h.left key' hkey'.1, by simp⟩
  · intro key' hkey' s hs
    rcases h.right key' hkey'.1 s hs with hn | ht
    · exact .inl ⟨hn, by simp⟩
    · exact .inr ⟨ht, by simp⟩

namespace Grammar

variable {g : Grammar} {key : RuleKey}

/-- Of an intact grammar a rule that is removed is tagged so, whatever its tag was. -/
theorem Intact.removeRule_eq (h : g.Intact) (hkey : key ∈ g.outline.rules) :
    (removeRule key).apply g = (.ok (), g.withRule key .removed) ∧
      g.Proposes (g.withRule key .removed) {.rule key} := by
  obtain ⟨present, hpresent⟩ := hkey
  have hnew : present ≠ .new := fun hc => h.old _ (hc ▸ hpresent)
  have hresolve : present.resolve .removed = .removed := (Tag.resolve_eq_removed hnew).mpr (.inr rfl)
  refine ⟨?_, .offer_removed h.old hpresent ?_ rfl⟩
  · rw [removeRule_of_tag hpresent, hresolve]
  · rw [hresolve]
    exact tag?_withRule g key .removed

theorem Intact.sound_withRule_removed (h : g.Intact) (hkey : key ∈ g.outline.rules) :
    (g.withRule key .removed).Sound := by
  have hsame := (h.removeRule_eq hkey).2.outline_eq
  exact ⟨hsame ▸ h.named, hsame ▸ h.closed, dense_withRule h.dense key .removed⟩

/-- Once the removal is made true the rule is gone, and nothing else has changed. -/
theorem Intact.tag?_settled_withRule_removed (h : g.Intact) (key : RuleKey) (e : GrammarEntry) :
    (g.withRule key .removed).settled.tag? e = if e = .rule key then none else g.tag? e := by
  rw [tag?_settled, tag?_withRule]
  by_cases he : e = .rule key
  · rw [if_pos he, if_pos he]
    rfl
  · rw [if_neg he, if_neg he]
    exact (h.tag?_eq_decay e).symm

end Grammar

namespace LoopRemoval

variable {g g₀ : Grammar} {s : Snapshot} {d : Scratch} {bag : Bag} {gone rest : List RuleKey}
  {key : RuleKey} {known pending : Set String}

/-! ### The loops of a grammar -/

theorem mem_loops : key ∈ loops g ↔ key ∈ g.outline.rules ∧ key.isLoop = true := by
  rw [loops, List.mem_filter, Grammar.mem_ruleList_map]

theorem nodup_loops (g : Grammar) : (loops g).Nodup := g.nodup_ruleList_map.filter _

theorem check_iff : check g = true ↔ ∀ key ∈ g.outline.rules, key.isLoop = false := by
  rw [check, Bool.not_eq_true', List.any_eq_false]
  simp only [← Grammar.mem_ruleList_map, List.mem_map, Bool.not_eq_true]
  constructor
  · intro h key hkey
    obtain ⟨rule, hrule, rfl⟩ := hkey
    exact h rule hrule
  · exact fun h rule hrule => h rule.key ⟨rule, hrule, rfl⟩

/-- The left sides of some rules. -/
def lefts (keys : List RuleKey) : Set String := {x | ∃ key ∈ keys, key.left = x}

theorem lefts_nil : lefts [] = ∅ := by
  ext x
  simp [lefts]

theorem lefts_concat (gone : List RuleKey) (key : RuleKey) :
    lefts (gone ++ [key]) = insert key.left (lefts gone) := by
  ext x
  simp only [lefts, List.mem_append, List.mem_singleton, Set.mem_insert_iff, Set.mem_ofPred_eq]
  constructor
  · intro h
    obtain ⟨key', hmem | rfl, rfl⟩ := h
    · exact .inr ⟨key', hmem, rfl⟩
    · exact .inl rfl
  · intro h
    rcases h with rfl | ⟨key', hmem, rfl⟩
    · exact ⟨key, .inr rfl, rfl⟩
    · exact ⟨key', .inl hmem, rfl⟩

/-- The tags of a grammar without some of its rules. -/
def tagsWithout (g : Grammar) (gone : List RuleKey) (e : GrammarEntry) : Option Tag :=
  if e ∈ gone.map .rule then none else g.tag? e

theorem tagsWithout_nil (g : Grammar) (e : GrammarEntry) : tagsWithout g [] e = g.tag? e := by
  simp [tagsWithout]

theorem tagsWithout_concat (g : Grammar) (gone : List RuleKey) (key : RuleKey) (e : GrammarEntry) :
    tagsWithout g (gone ++ [key]) e = if e = .rule key then none else tagsWithout g gone e := by
  simp only [tagsWithout, List.map_append, List.mem_append, List.map_singleton, List.mem_singleton]
  by_cases h : e = .rule key
  · rw [if_pos (.inr h), if_pos h]
  · simp [h]

theorem recordLoop_none (hbag : s.structures = .empty) :
    ∃ bag, (recordLoop none).apply s = (.ok (), { s with structures := bag }) ∧
      bag.HoldsSet hadLoopsId ∅ ∅ := by
  obtain ⟨content, bag, hopen, hholds⟩ := Bag.openContent_eq hadLoopsId hadLoopsName
  refine ⟨bag, ?_, hholds⟩
  unfold recordLoop
  rw [Snapshot.editStructures, Edit.apply_on, hbag, Edit.apply_bind_of_ok hopen]
  rfl

theorem recordLoop_some (hbag : s.structures.HoldsSet hadLoopsId known pending) (item : String) :
    ∃ bag, (recordLoop (some item)).apply s = (.ok (), { s with structures := bag }) ∧
      bag.HoldsSet hadLoopsId known (insert item pending) := by
  obtain ⟨content, hopen⟩ := hbag.openContent_eq hadLoopsName
  obtain ⟨bag, fresh, hadd, -, hholds⟩ := hbag.add_eq item
  have hput : Edit.apply (Bag.editContent .symbolSet hadLoopsId (fun set => SymbolSet.add set item)
      >>= fun _ => pure ()) s.structures = (.ok (), bag) := Edit.apply_bind_of_ok hadd _
  refine ⟨bag, ?_, hholds⟩
  unfold recordLoop
  rw [Snapshot.editStructures, Edit.apply_on, Edit.apply_bind_of_ok hopen]
  show (_, { s with structures := _ }) = _
  rw [hput]

/-- The part of a removing step that comes before the removal itself. -/
theorem removeNext_apply (hbag : s.structures.HoldsSet hadLoopsId known pending)
    (hqueue : d.get? .rules queueKey = some (key :: rest)) :
    ∃ bag, bag.HoldsSet hadLoopsId known (insert key.left pending) ∧
      ∀ (answer : Except EngineError Unit) (g : Grammar),
        (Grammar.removeRule key).apply s.grammar = (answer, g) →
        removeNext.apply (s, d) = (answer.map fun _ => some (key, !rest.isEmpty),
          (⟨g, bag⟩, d.insert .rules queueKey rest)) := by
  obtain ⟨bag, hrecord, hholds⟩ := recordLoop_some hbag key.left
  refine ⟨bag, hholds, fun answer g hremove => ?_⟩
  have hedit : (Snapshot.editGrammar (Grammar.removeRule key)).apply { s with structures := bag }
      = (answer, ⟨g, bag⟩) := by
    rw [Snapshot.editGrammar, Edit.apply_on, hremove]
  have hparts : Edit.apply (Edit.on (·.1) (fun (s : Snapshot × Scratch) snapshot => (snapshot, s.2))
      (do recordLoop (some key.left); Snapshot.editGrammar (Grammar.removeRule key)))
      (s, d.insert .rules queueKey rest) = (answer, (⟨g, bag⟩, d.insert .rules queueKey rest)) := by
    rw [Edit.apply_on, Edit.apply_bind_of_ok hrecord, hedit]
  have hget : d.getOrInsert .rules queueKey [] = (key :: rest, d) :=
    Scratch.getOrInsert_of_get? hqueue _
  unfold removeNext
  rw [Edit.apply_bind_of_ok (Edit.apply_get _)]
  simp only [hget]
  have hset : Edit.apply (set (s, d.insert .rules queueKey rest)) (s, d)
      = (.ok (), (s, d.insert .rules queueKey rest)) := rfl
  rw [Edit.apply_bind_of_ok hset]
  cases answer with
  | error e => exact Edit.apply_bind_of_error hparts _
  | ok _ => exact Edit.apply_bind_of_ok hparts _

/-- A loop that is not there cannot be removed. -/
theorem removeNext_fails (hbag : s.structures.HoldsSet hadLoopsId known pending)
    (hqueue : d.get? .rules queueKey = some (key :: rest))
    (hkey : s.grammar.tag? (.rule key) = none) :
    (removeNext.apply (s, d)).1 = .error (.unknownRule key) := by
  obtain ⟨bag, -, happly⟩ := removeNext_apply hbag hqueue
  rw [happly _ _ (Grammar.removeRule_of_unknown hkey)]
  rfl

/-! ### Stages -/

/-- What a step finds when the loops of `gone` are removed from `g₀`. -/
structure Stage (g₀ : Grammar) (gone : List RuleKey) (s : Snapshot) : Prop where
  intact : s.grammar.Intact
  start : s.grammar.start = g₀.start
  tags : ∀ e, s.grammar.tag? e = tagsWithout g₀ gone e
  set : s.structures.HoldsSet hadLoopsId (lefts gone) (lefts gone)
  known : lefts gone ⊆ s.grammar.outline.nonterminals

/-- The first step hands on what it was given, with the proposals made true. -/
theorem exists_first (hfinalize : Grammar.finalize.apply s.grammar = (.ok (), g₀))
    (hintact : g₀.Intact) (hbag : s.structures.HoldsSet hadLoopsId ∅ ∅) :
    ∃ data next, s.archive = .ok data ∧ data.materialize = .ok next ∧ Stage g₀ [] next := by
  have hshows : s.structures.settled.Shows (some (hadLoopsId, ∅)) := hbag.settled
  obtain ⟨data, next, harchive, hmaterialize, hgrammar, hshows⟩ :=
    Snapshot.renewed_of_finalize hfinalize hintact hshows (Set.empty_subset _)
  refine ⟨data, next, harchive, hmaterialize, ?_⟩
  rw [← hgrammar] at hintact ⊢
  exact ⟨hintact, rfl, fun e => (tagsWithout_nil _ e).symm, lefts_nil ▸ hshows,
    lefts_nil ▸ Set.empty_subset _⟩

namespace Stage

theorem has_iff (h : Stage g₀ gone s) {e : GrammarEntry} :
    s.grammar.Has e ↔ e ∉ gone.map .rule ∧ g₀.Has e := by
  rw [Grammar.Has, h.tags, tagsWithout]
  split
  · next hmem => simp [hmem]
  · next hmem => exact ⟨fun hex => ⟨hmem, hex⟩, fun hex => hex.2⟩

theorem mem_rules_iff (h : Stage g₀ gone s) :
    key ∈ s.grammar.outline.rules ↔ key ∉ gone ∧ key ∈ g₀.outline.rules := by
  have hmem : GrammarEntry.rule key ∈ gone.map .rule ↔ key ∈ gone := by simp
  rw [← hmem]
  exact h.has_iff

/-- A step that changes nothing leads to the same stage. -/
theorem renewed (h : Stage g₀ gone s) :
    ∃ data next, s.archive = .ok data ∧ data.materialize = .ok next ∧ Stage g₀ gone next := by
  have hshows : s.structures.settled.Shows (some (hadLoopsId, lefts gone)) := h.set.settled
  obtain ⟨data, next, harchive, hmaterialize, hgrammar, hset⟩ :=
    Snapshot.renewed_of_finalize h.intact.finalize_eq h.intact hshows h.known
  refine ⟨data, next, harchive, hmaterialize, ?_, ?_, ?_, hset, ?_⟩
  · exact hgrammar ▸ h.intact
  · exact hgrammar ▸ h.start
  · exact hgrammar ▸ h.tags
  · exact hgrammar ▸ h.known

/-- **A removing step leads from one stage to the next**, and in between that loop alone is tagged
as removed. -/
theorem exists_next (h : Stage g₀ gone s) (hkey : key ∈ g₀.outline.rules) (hgone : key ∉ gone)
    (hqueue : d.get? .rules queueKey = some (key :: rest)) :
    ∃ s' data next, removeNext.apply (s, d) = (.ok (some (key, !rest.isEmpty)),
        (s', d.insert .rules queueKey rest)) ∧
      s'.grammar.Sound ∧ (∀ e, s'.grammar.tag? e
        = if e = .rule key then some .removed else tagsWithout g₀ gone e) ∧
      s'.archive = .ok data ∧ data.materialize = .ok next ∧ Stage g₀ (gone ++ [key]) next := by
  have hmem := h.mem_rules_iff.mpr ⟨hgone, hkey⟩
  obtain ⟨hremove, hproposes⟩ := h.intact.removeRule_eq hmem
  obtain ⟨hfinalize, hintact, houtline⟩ :=
    hproposes.finalize_eq h.intact (h.intact.closed.without_rule key)
  obtain ⟨bag, hbag, happly⟩ := removeNext_apply h.set hqueue
  have hshows : bag.settled.Shows (some (hadLoopsId, lefts (gone ++ [key]))) := by
    rw [lefts_concat]
    exact hbag.settled
  have hknown : lefts (gone ++ [key]) ⊆
      (s.grammar.withRule key .removed).settled.outline.nonterminals := by
    rw [houtline, lefts_concat]
    have hleft : key.left ∈ s.grammar.outline.nonterminals := h.intact.closed.left key hmem
    exact fun x hx => ⟨Set.insert_subset hleft h.known hx, by simp⟩
  obtain ⟨data, next, harchive, hmaterialize, hgrammar, hset⟩ :=
    Snapshot.renewed_of_finalize (s := ⟨s.grammar.withRule key .removed, bag⟩) hfinalize hintact
      hshows hknown
  have htags : ∀ e, next.grammar.tag? e = tagsWithout g₀ (gone ++ [key]) e := fun e => by
    rw [hgrammar, h.intact.tag?_settled_withRule_removed, tagsWithout_concat, h.tags]
  rw [← hgrammar] at hintact hknown
  refine ⟨_, data, next, happly _ _ hremove, h.intact.sound_withRule_removed hmem, fun e => ?_,
    harchive, hmaterialize, hintact, (congrArg Grammar.start hgrammar).trans h.start, htags, hset,
    hknown⟩
  rw [Grammar.tag?_withRule, h.tags]

/-- When all loops are gone, the outline is what it was without them. -/
theorem outline_eq (h : Stage g.settled (loops g) s) :
    s.grammar.outline = g.settled.outline.dropLoops := by
  have hgone : ∀ key ∈ g.settled.outline.rules, key ∈ loops g ↔ key.isLoop = true := by
    intro key hkey
    obtain ⟨tag, htag, -⟩ := Grammar.has_settled.mp hkey
    exact mem_loops.trans (and_iff_right ⟨tag, htag⟩)
  refine Outline.ext h.start ?_ ?_ ?_
  · ext x
    exact h.has_iff.trans (and_iff_right (by simp))
  · ext x
    exact h.has_iff.trans (and_iff_right (by simp))
  · ext x
    rw [h.mem_rules_iff]
    constructor
    · intro hx
      obtain ⟨hnot, hmem⟩ := hx
      exact ⟨hmem, by simpa [hnot] using hgone x hmem⟩
    · intro hx
      obtain ⟨hmem, hloop⟩ := hx
      exact ⟨fun hc => by simp [(hgone x hmem).mp hc] at hloop, hmem⟩

theorem check_eq (h : Stage g.settled (loops g) s) : check s.grammar = true := by
  rw [check_iff, h.outline_eq]
  exact fun key hkey => hkey.2

end Stage

end LoopRemoval

end Chronicle
