import Chronicle.Proofs.Archive.Loading
import Chronicle.Proofs.LoopRemoval.Outcome
import Chronicle.Proofs.Reduction.Outcome
/-!
Procedures on loaded grammars.

A text may tag its symbols and rules in any way, and a grammar that is loaded from it is accepted
if its proposals can be made true.  The reduction copes with all of these grammars.  Loop removal
lists the loops first, and then the archive of its first step makes the proposals true: a loop that
is tagged as removed is gone when its own step comes, and that step fails.
-/

namespace Chronicle

/-- In whichever form a text is, what is loaded from it comes from archived data. -/
theorem Grammar.exists_data_of_load {text : String} {g : Grammar} (h : load text = .ok g) :
    ∃ data, ofData data = .ok g := by
  unfold load at h
  split at h
  · unfold ofJson at h
    split at h
    · next plain _ => exact ⟨plain.toData, mapError_eq_ok.mp h⟩
    · split at h
      · next data _ => exact ⟨data, mapError_eq_ok.mp h⟩
      · cases h
  · cases h

namespace Procedure

open LoopRemoval

variable {text : String} {g g₀ : Grammar}

/-- **What becomes of a grammar that is loaded and accepted.**

The reduction finishes, and its test holds of the grammar that it comes to.  So does loop removal
if no loop is tagged as removed.  Otherwise it is aborted at the first loop that is: that rule is
not known any more. -/
theorem outcome_of_loaded (hload : Grammar.load text = .ok g)
    (hfinalize : Grammar.finalize.apply g = (.ok (), g₀)) :
    (∃ g', (∀ config : RunConfig, (start .reduce (.ofGrammar g) config).ComesTo library
        (Snapshot.ofGrammar g').toData) ∧
      (Snapshot.ofGrammar g').toData.materialize = .ok (.ofGrammar g') ∧
      check .reduce g' = true) ∧
    ((∀ key ∈ loops g, g.tag? (.rule key) ≠ some .removed) →
      ∀ config : RunConfig, ∃ r, (∀ rounds, 3 + (loops g).length ≤ rounds →
        (Run.execute library rounds).apply (start .removeLoops (.ofGrammar g) config)
          = (.ok .finished, r)) ∧
        ∃ final s, r.finalSnapshot? = some final ∧ final.materialize = .ok s ∧
          check .removeLoops s.grammar = true) ∧
    ∀ before key after, loops g = before ++ key :: after →
      (∀ key ∈ before, g.tag? (.rule key) ≠ some .removed) →
      g.tag? (.rule key) = some .removed →
      ∀ config : RunConfig, ∃ r, (∀ rounds, 3 + before.length ≤ rounds →
        (Run.execute library rounds).apply (start .removeLoops (.ofGrammar g) config)
          = (.error (.unknownRule key), r)) ∧ r.phase = .aborted := by
  obtain ⟨data, hdata⟩ := Grammar.exists_data_of_load hload
  obtain ⟨rfl, hintact⟩ := (Grammar.Built.ofData hdata).intact hfinalize
  have hkept : ∀ key ∈ loops g, g.tag? (.rule key) ≠ some .removed →
      key ∈ g.settled.outline.rules := by
    intro key hkey hne
    obtain ⟨tag, htag⟩ := (mem_loops.mp hkey).1
    refine Grammar.has_settled.mpr ⟨tag, htag, ?_⟩
    intro hc
    exact hne (hc ▸ htag)
  refine ⟨?_, fun hne config => ?_, fun before key after hloops hne hremoved config => ?_⟩
  · obtain ⟨g', hcomes, hintact', houtline, -⟩ := Reduction.exists_comesTo hfinalize hintact
    refine ⟨g', hcomes, Snapshot.materialize_ofGrammar hintact', ?_⟩
    refine (Reduction.check_iff hintact'.closed).mpr ?_
    rw [houtline]
    exact Outline.isReduced_reduced hintact.closed hintact.named
  · obtain ⟨r, hexecute, hrun, -⟩ :=
      exists_removed hfinalize hintact (fun key hkey => hkept key hkey (hne key hkey)) config
    obtain ⟨-, final, s, hfinal, hmaterialize, hstage⟩ := hrun.exists_final
    exact ⟨r, hexecute, final, s, hfinal, hmaterialize, hstage.check_eq⟩
  · refine exists_aborted hfinalize hintact hloops (fun key' hkey' => ?_) ?_ config
    · exact hkept key' (hloops ▸ List.mem_append_left _ hkey') (hne key' hkey')
    · intro hc
      obtain ⟨tag, htag, hne'⟩ := Grammar.has_settled.mp hc
      exact hne' (Option.some.inj (htag.symm.trans hremoved))

/-- The text of a grammar whose only loop is tagged as removed. -/
def removedLoopText : String :=
  "\x7b\"N\":\x7b\"S\":\"none\"\x7d,\"T\":\x7b\"a\":\"none\"\x7d," ++
    "\"P\":\x7b\"S\":\x7b\"S\":\"removed\",\"a\":\"none\"\x7d\x7d,\"S\":\"S\"\x7d"

/-- The grammar of that text: `S -> S | a`. -/
def removedLoop : Grammar where
  nonterminals := .ofList [("S", .none)]
  terminals := .ofList [("a", .none)]
  rules := .ofList [("S", .ofList [(⟨["S"]⟩, .removed), (⟨["a"]⟩, .none)])]
  start := "S"

theorem load_removedLoop : Grammar.load removedLoopText = .ok removedLoop := by decide +kernel

theorem finalize_removedLoop :
    Grammar.finalize.apply removedLoop = (.ok (), removedLoop.settled) := by decide

theorem loops_removedLoop : loops removedLoop = [] ++ [⟨"S", ⟨["S"]⟩⟩] := by decide

theorem outcome_of_loaded_removed_loop :
    (∃ g', (∀ config : RunConfig, (start .reduce (.ofGrammar removedLoop) config).ComesTo library
        (Snapshot.ofGrammar g').toData) ∧ check .reduce g' = true) ∧
    ∀ config : RunConfig, ∃ r, (∀ rounds, 3 ≤ rounds →
      (Run.execute library rounds).apply (start .removeLoops (.ofGrammar removedLoop) config)
        = (.error (.unknownRule ⟨"S", ⟨["S"]⟩⟩), r)) ∧ r.phase = .aborted := by
  obtain ⟨⟨g', hcomes, -, hcheck⟩, -, haborted⟩ :=
    outcome_of_loaded load_removedLoop finalize_removedLoop
  exact ⟨⟨g', hcomes, hcheck⟩, haborted [] _ [] loops_removedLoop (by simp) (by decide)⟩

/-- Not every procedure finishes on every grammar that is loaded and accepted. -/
theorem accepted_not_finished :
    ¬ ∀ (text : String) (g g₀ : Grammar), Grammar.load text = .ok g →
      Grammar.finalize.apply g = (.ok (), g₀) → ∀ p ∈ all, ∀ config : RunConfig,
      ∃ enough, ∀ rounds, enough ≤ rounds → ∃ r,
        (Run.execute library rounds).apply (start p (.ofGrammar g) config)
          = (.ok .finished, r) := by
  intro hclaim
  obtain ⟨enough, hfinished⟩ := hclaim _ _ _ load_removedLoop finalize_removedLoop .removeLoops
    (by simp [all]) {}
  obtain ⟨data, hdata⟩ := Grammar.exists_data_of_load load_removedLoop
  obtain ⟨-, hintact⟩ := (Grammar.Built.ofData hdata).intact finalize_removedLoop
  have hgone : (⟨"S", ⟨["S"]⟩⟩ : RuleKey) ∉ removedLoop.settled.outline.rules := by
    intro hc
    obtain ⟨tag, htag⟩ := hc
    have hnone : removedLoop.settled.tag? (.rule ⟨"S", ⟨["S"]⟩⟩) = none := by decide
    simp [hnone] at htag
  obtain ⟨r, haborted, -⟩ :=
    exists_aborted finalize_removedLoop hintact loops_removedLoop (by simp) hgone {}
  obtain ⟨r', hexecute⟩ := hfinished (max enough 3) (le_max_left enough 3)
  have hfailed := haborted (max enough 3) (le_max_right enough 3)
  simp [hfailed] at hexecute

end Procedure

end Chronicle
