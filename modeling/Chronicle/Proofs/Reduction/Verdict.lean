import Chronicle.Proofs.Reduction.Outcome
/-!
What the test for the reduced form says.

The test looks at the rules, and then repeats passes that collect the generating and the reachable
nonterminals until a pass adds nothing, without a bound on their number (`Decides`).  The sets grow
within the nonterminals, so it always ends, and `check` is what it comes to (`decides_iff`).  Its
verdict can be read in two ways: off the rules and the words that they derive
(`isReduced_iff_derives`), and off what a reduction would leave of the grammar, since nothing
changes under it but what is not reduced (`isReduced_iff_reduced_eq`).
-/

namespace Chronicle

namespace Outline

variable {o : Outline} {x : String}

/-- To be generating is to derive a word of terminals. -/
theorem generating_iff_derives (hclosed : o.Closed) (hnamed : o.Named) (hx : x ∈ o.nonterminals) :
    o.Generating x ↔ ∃ w, o.IsTerminal w ∧ o.Derives [x] w := by
  constructor
  · exact fun h => h.exists_derives hclosed
  · rintro ⟨w, hw, hderives⟩
    exact hderives.generating hnamed hw x List.mem_cons_self hx

theorem isReduced_iff_derives (hclosed : o.Closed) (hnamed : o.Named) :
    o.IsReduced ↔ (∀ x, ⟨x, ⟨[x]⟩⟩ ∉ o.rules) ∧
      (∀ x ∈ o.nonterminals, x ≠ o.start → ∃ w, o.IsTerminal w ∧ o.Derives [x] w) ∧
      ∀ x ∈ o.nonterminals, o.ReachableBy o.rules x := by
  constructor
  · intro h
    refine ⟨fun x hx => ?_, fun x hx hne => ?_, h.reachable⟩
    · simpa only [RuleKey.isLoop, beq_self_eq_true, Bool.true_eq_false] using h.loops _ hx
    · exact (generating_iff_derives hclosed hnamed hx).mp ((h.generating x hx).resolve_right hne)
  · rintro ⟨hloops, hderives, hreachable⟩
    refine ⟨fun key hkey => ?_, fun x hx => ?_, hreachable⟩
    · obtain ⟨left, ⟨symbols⟩⟩ := key
      rw [RuleKey.isLoop, beq_eq_false_iff_ne]
      intro (hright : symbols = [left])
      exact hloops left (hright ▸ hkey)
    · by_cases hstart : x = o.start
      · exact .inr hstart
      · exact .inl ((generating_iff_derives hclosed hnamed hx).mpr (hderives x hx hstart))

/-- What is reduced is what a reduction leaves as it is. -/
theorem isReduced_iff_reduced_eq (hclosed : o.Closed) (hnamed : o.Named) :
    o.IsReduced ↔ o.reduced = o :=
  ⟨fun h => h.reduced_eq hclosed hnamed, fun h => h ▸ isReduced_reduced hclosed hnamed⟩

end Outline

namespace Reduction

variable {g : Grammar} {verdict verdict' : Bool}

/-! ### The end of the test -/

/-- All nonterminals are in the set, but perhaps the start symbol, as the size of the set has it. -/
def fills (g : Grammar) (set : SortedSet String) : Bool :=
  set.size = g.nonterminalCount ||
    (set.size + 1 = g.nonterminalCount && !set.contains g.start)

/-- The test comes to a verdict: at the first rule that replaces a symbol by itself alone, or after
the passes for the generating nonterminals, or after those for the reachable ones. -/
inductive Decides (g : Grammar) : Bool → Prop
  | loop (h : g.ruleList.any (·.key.isLoop) = true) : Decides g false
  | barren {set : SortedSet String} (hloop : g.ruleList.any (·.key.isLoop) = false)
      (hset : Settles (g.ruleList.foldl (addGenerating g)) .empty set)
      (hfills : fills g set = false) : Decides g false
  | counted {set set' : SortedSet String} (hloop : g.ruleList.any (·.key.isLoop) = false)
      (hset : Settles (g.ruleList.foldl (addGenerating g)) .empty set)
      (hfills : fills g set = true)
      (hset' : Settles (g.ruleList.foldl (addReachable g)) (.ofList [g.start]) set') :
      Decides g (set'.size = g.nonterminalCount)

theorem Decides.unique (h : Decides g verdict) (h' : Decides g verdict') : verdict = verdict' := by
  cases h with
  | loop hloop =>
      cases h' with
      | loop => rfl
      | barren hloop' => simp [hloop] at hloop'
      | counted hloop' => simp [hloop] at hloop'
  | barren hloop hset hfills =>
      cases h' with
      | loop hloop' => simp [hloop] at hloop'
      | barren => rfl
      | counted _ hset' hfills' =>
          rw [hset.unique hset', hfills'] at hfills
          cases hfills
  | counted hloop hset hfills hreach =>
      cases h' with
      | loop hloop' => simp [hloop] at hloop'
      | barren _ hset' hfills' =>
          rw [hset.unique hset', hfills'] at hfills
          cases hfills
      | counted _ _ _ hreach' => rw [hreach.unique hreach']

/-- The test always comes to a verdict, and it is the one of `check`. -/
theorem decides_check (hclosed : g.outline.Closed) : Decides g (check g) := by
  have hcheck : check g = (!g.ruleList.any (·.key.isLoop) && fills g (generating g) &&
      decide ((reachable g).size = g.nonterminalCount)) := rfl
  have hgenerating := (settles_generating hclosed).1
  rw [hcheck]
  cases hloop : g.ruleList.any (·.key.isLoop) with
  | true => exact .loop hloop
  | false =>
      cases hfills : fills g (generating g) with
      | false => exact .barren hloop hgenerating hfills
      | true =>
          rw [Bool.not_false, Bool.true_and, Bool.true_and]
          exact .counted hloop hgenerating hfills (settles_reachable hclosed).1

theorem decides_iff (hclosed : g.outline.Closed) : Decides g verdict ↔ verdict = check g :=
  ⟨fun h => h.unique (decides_check hclosed), fun h => h ▸ decides_check hclosed⟩

/-! ### What the verdict says -/

/-- A run of the reduction changes nothing exactly if the test holds, as long as nothing was to be
removed. -/
theorem check_iff_unchanged (hnamed : g.outline.Named) (hclosed : g.outline.Closed)
    (hremoved : ∀ e, g.tag? e ≠ some .removed) :
    ∃ g' : Grammar, (∀ config : RunConfig, (Procedure.start .reduce (.ofGrammar g) config).ComesTo
        Procedure.library (Snapshot.ofGrammar g').toData) ∧
      (Snapshot.ofGrammar g').toData.materialize = .ok (.ofGrammar g') ∧
      (check g = true ↔ g'.outline.nonterminals = g.outline.nonterminals ∧
        g'.outline.terminals = g.outline.terminals ∧ g'.outline.rules = g.outline.rules) := by
  have hfuture := Grammar.future_eq_outline hremoved
  obtain ⟨hfinalize, hintact⟩ := Grammar.finalize_of_closed hnamed (hfuture ▸ hclosed)
  obtain ⟨g', hcomes, hintact', houtline, -⟩ := exists_comesTo hfinalize hintact
  rw [Grammar.outline_settled, hfuture] at houtline
  refine ⟨g', hcomes, Snapshot.materialize_ofGrammar hintact', ?_⟩
  rw [check_iff hclosed, Outline.isReduced_iff_reduced_eq hclosed hnamed, houtline]
  constructor
  · intro h
    rw [h]
    exact ⟨rfl, rfl, rfl⟩
  · rintro ⟨hnonterminals, hterminals, hrules⟩
    exact Outline.ext rfl hnonterminals hterminals hrules

/-- **The test is right.**  Where the names fit and no reference is dangling it comes to one verdict,
that of `check`.  It says that no rule replaces a symbol by itself alone, that every nonterminal but
perhaps the start symbol derives a word of terminals, and that the start symbol leads to every
nonterminal.  If nothing is to be removed it also says that a run of the reduction leaves the
symbols and the rules as they are. -/
theorem check_exact (hnamed : g.outline.Named) (hclosed : g.outline.Closed) :
    (∀ verdict, Decides g verdict ↔ verdict = check g) ∧
    (check g = true ↔ (∀ x, ⟨x, ⟨[x]⟩⟩ ∉ g.outline.rules) ∧
      (∀ x ∈ g.outline.nonterminals, x ≠ g.start →
        ∃ w, g.outline.IsTerminal w ∧ g.outline.Derives [x] w) ∧
      ∀ x ∈ g.outline.nonterminals, g.outline.ReachableBy g.outline.rules x) ∧
    ((∀ e, g.tag? e ≠ some .removed) → ∃ g' : Grammar,
      (∀ config : RunConfig, (Procedure.start .reduce (.ofGrammar g) config).ComesTo
        Procedure.library (Snapshot.ofGrammar g').toData) ∧
      (Snapshot.ofGrammar g').toData.materialize = .ok (.ofGrammar g') ∧
      (check g = true ↔ g'.outline.nonterminals = g.outline.nonterminals ∧
        g'.outline.terminals = g.outline.terminals ∧ g'.outline.rules = g.outline.rules)) := by
  refine ⟨fun _ => decides_iff hclosed, ?_, check_iff_unchanged hnamed hclosed⟩
  rw [check_iff hclosed]
  exact Outline.isReduced_iff_derives hclosed hnamed

/-- The test fails, and the reduction changes the grammar. -/
theorem check_exact_sample : Decides sample false ∧ ∃ g' : Grammar,
    (∀ config : RunConfig, (Procedure.start .reduce (.ofGrammar sample) config).ComesTo
      Procedure.library (Snapshot.ofGrammar g').toData) ∧
    ¬(g'.outline.nonterminals = sample.outline.nonterminals ∧
      g'.outline.terminals = sample.outline.terminals ∧
      g'.outline.rules = sample.outline.rules) := by
  obtain ⟨-, hintact⟩ := built_sample.intact finalize_sample
  obtain ⟨hdecides, -, hreduction⟩ := check_exact hintact.named hintact.closed
  have hcheck : check sample = false := by decide
  obtain ⟨g', hcomes, -, hiff⟩ := hreduction hintact.not_removed
  exact ⟨(hdecides false).mpr hcheck.symm, g', hcomes, fun h => by simp [hiff.mpr h] at hcheck⟩

end Reduction

end Chronicle
