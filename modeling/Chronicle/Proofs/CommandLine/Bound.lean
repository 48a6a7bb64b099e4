import Chronicle.CommandLine.Session
import Chronicle.Proofs.LoopRemoval.Outcome
import Chronicle.Proofs.Reduction.Duration
/-!
Enough batches for the procedures.

The command line allows a run so many batches that each of them need make one step only
(`stepBound`).  Loop removal takes a step for each loop, and the rounds of the reduction are bounded
by what there is to be found.  A grammar that cannot be finalized is refused at the end of the first
step.  So every run has come to its end by then (`endsBy_stepBound`).
-/

namespace Chronicle

variable {g g₀ : Grammar} {e : EngineError}

/-- Finalizing brings in no nonterminal. -/
theorem Grammar.nonterminalCount_settled_le (g : Grammar) :
    g.settled.nonterminalCount ≤ g.nonterminalCount := by
  rw [← ncard_nonterminals, ← ncard_nonterminals]
  refine Set.ncard_le_ncard (fun x hx => ?_) g.finite_nonterminals
  obtain ⟨tag, htag, -⟩ := has_settled.mp hx
  exact ⟨tag, htag⟩

namespace LoopRemoval

/-- If the proposals cannot be made true, loop removal fails in its first step. -/
theorem endsBy_of_refused (hfinalize : Grammar.finalize.apply g = (.error e, g₀))
    (config : RunConfig) :
    Run.EndsBy Procedure.library 1 (Procedure.start .removeLoops (.ofGrammar g) config) := by
  obtain ⟨bag, -, hturns⟩ := turns_opening g .empty
  obtain ⟨last, hstep⟩ := (Run.between_ofJob (.ofGrammar g) opening config).turn_refused
    (Run.carries_ofJob _ _ _) rfl hturns (by simp) (Snapshot.archive_eq_error hfinalize)
  exact .of_step_eq hstep rfl rfl

/-- **Loop removal takes at most a step for each loop, and three others.** -/
theorem endsBy (hbuilt : g.Built) (hfinalize : Grammar.finalize.apply g = (.ok (), g₀))
    (config : RunConfig) :
    Run.EndsBy Procedure.library (3 + (loops g).length)
      (Procedure.start .removeLoops (.ofGrammar g) config) := by
  classical
  obtain ⟨-, hintact⟩ := hbuilt.intact hfinalize
  -- The run is aborted at the first loop that is gone, if there is one.
  cases hgone : (loops g).find? (fun key => decide (key ∉ g₀.outline.rules)) with
  | none =>
      have hloops : ∀ key ∈ loops g, key ∈ g₀.outline.rules := by
        simpa using List.find?_eq_none.mp hgone
      obtain ⟨r, hexecute, -⟩ := exists_removed hfinalize hintact hloops config
      exact .finished hexecute
  | some key =>
      obtain ⟨hkey, before, after, hloops, hbefore⟩ := List.find?_eq_some_iff_append.mp hgone
      obtain ⟨r, hexecute, -⟩ := exists_aborted hfinalize hintact hloops
        (fun key' hkey' => by simpa using hbefore key' hkey') (by simpa using hkey) config
      refine .mono (.failed hexecute) ?_
      rw [hloops, List.length_append]
      omega

end LoopRemoval

namespace Reduction

/-- If the proposals cannot be made true, the reduction fails in its first step. -/
theorem endsBy_of_refused (hfinalize : Grammar.finalize.apply g = (.error e, g₀))
    (config : RunConfig) :
    Run.EndsBy Procedure.library 1 (Procedure.start .reduce (.ofGrammar g) config) := by
  obtain ⟨last, hstep⟩ := (Run.between_ofJob (.ofGrammar g) _ config).exists_refused_of_makes rfl
    (makes_opening (.ofGrammar g)) (by simp) (Snapshot.archive_eq_error hfinalize)
  exact .of_step_eq hstep rfl rfl

/-- **The reduction takes at most two steps for each nonterminal, and ten others.** -/
theorem endsBy (hbuilt : g.Built) (hfinalize : Grammar.finalize.apply g = (.ok (), g₀))
    (config : RunConfig) :
    Run.EndsBy Procedure.library (10 + 2 * g.nonterminalCount)
      (Procedure.start .reduce (.ofGrammar g) config) := by
  obtain ⟨rfl, hintact⟩ := hbuilt.intact hfinalize
  have hfew := g.nonterminalCount_settled_le
  obtain ⟨final, k, m, log, last, -, -, -, -, hexecute⟩ := exists_left hfinalize hintact config
  exact .finished fun rounds hrounds => hexecute rounds (by omega)

end Reduction

namespace CommandLine

/-- **The bound of the command line is enough** for every procedure on every grammar that can be
built. -/
theorem endsBy_stepBound (hbuilt : g.Built) (p : Procedure) (config : RunConfig) :
    Run.EndsBy Procedure.library (stepBound g) (p.start (.ofGrammar g) config) := by
  rcases hfinalize : Grammar.finalize.apply g with ⟨e | ⟨⟨⟩⟩, g₀⟩
  · have hone : 1 ≤ stepBound g := by
      unfold stepBound
      omega
    cases p with
    | removeLoops => exact (LoopRemoval.endsBy_of_refused hfinalize config).mono hone
    | reduce => exact (Reduction.endsBy_of_refused hfinalize config).mono hone
  · cases p with
    | removeLoops =>
        refine (LoopRemoval.endsBy hbuilt hfinalize config).mono ?_
        have hfew : (LoopRemoval.loops g).length ≤ g.ruleCount :=
          (List.length_filter_le _ _).trans (List.length_map _).le
        unfold stepBound
        omega
    | reduce =>
        refine (Reduction.endsBy hbuilt hfinalize config).mono ?_
        unfold stepBound
        omega

end CommandLine

end Chronicle
