import Chronicle.Proofs.Grammar.Built
import Chronicle.Proofs.Reduction.Check
import Chronicle.Proofs.Reduction.Whole
/-!
What the reduction comes to.

A run of the reduction always ends, and with one grammar only: the untagged one whose outline is
the reduced outline of the grammar it was given, finalized.  So it keeps the language, and what it
leaves out and what it keeps can be told from the grammar it was given.  Reducing once more changes
nothing.
-/

namespace Chronicle

namespace Reduction

variable {g g' g₀ : Grammar}

/-- A grammar with a loop, a nonterminal that is not generating and one that is not reachable:
`S -> S | a | B | eps`, `B -> b B`, `C -> a`. -/
def sample : Grammar where
  nonterminals := .ofList [("B", .none), ("C", .none), ("S", .none)]
  terminals := .ofList [("a", .none), ("b", .none)]
  rules := .ofList [("B", .ofList [(⟨["b", "B"]⟩, .none)]), ("C", .ofList [(⟨["a"]⟩, .none)]),
    ("S", .ofList [(⟨["S"]⟩, .none), (⟨["a"]⟩, .none), (⟨["B"]⟩, .none), (⟨[]⟩, .none)])]
  start := "S"

theorem built_sample : sample.Built :=
  .ofData (show Grammar.ofData sample.toData = .ok sample by decide)

theorem finalize_sample : Grammar.finalize.apply sample = (.ok (), sample) := by decide

/-- An untagged grammar is determined by its outline. -/
theorem Plain.ext (hg : Plain g) (hg' : Plain g') (hdense : g.Dense) (hdense' : g'.Dense)
    (houtline : g.outline = g'.outline) : g = g' := by
  refine Grammar.ext_tag? hdense hdense' (congrArg Outline.start houtline) fun e => ?_
  have hhas : g.Has e ↔ g'.Has e := by
    cases e with
    | nonterminal name => exact Set.ext_iff.mp (congrArg Outline.nonterminals houtline) name
    | terminal name => exact Set.ext_iff.mp (congrArg Outline.terminals houtline) name
    | rule key => exact Set.ext_iff.mp (congrArg Outline.rules houtline) key
  cases htag : g.tag? e with
  | some tag =>
      obtain ⟨tag', htag'⟩ := hhas.mp ⟨tag, htag⟩
      rw [htag', hg e tag htag, hg' e tag' htag']
  | none =>
      cases htag' : g'.tag? e with
      | none => rfl
      | some tag' =>
          obtain ⟨tag, hc⟩ := hhas.mpr ⟨tag', htag'⟩
          simp [htag] at hc

/-- The outcome for a grammar that finalizing makes intact. -/
theorem exists_comesTo (hfinalize : Grammar.finalize.apply g = (.ok (), g₀)) (hintact : g₀.Intact) :
    ∃ g' : Grammar, (∀ config : RunConfig, (Procedure.start .reduce (.ofGrammar g) config).ComesTo
        Procedure.library (Snapshot.ofGrammar g').toData) ∧
      g'.Intact ∧ g'.outline = g₀.outline.reduced ∧ Plain g' := by
  obtain ⟨g', k, m, log, hruns, hresult, -⟩ := exists_runs hfinalize hintact
  exact ⟨g', fun config => Run.comesTo_ofJob config hruns, hresult⟩

/-- **The reduction keeps the language** of every grammar that can be built and finalized. -/
theorem keeps_language (hbuilt : g.Built) (hfinalize : Grammar.finalize.apply g = (.ok (), g₀))
    (config : RunConfig) :
    ∃ final g', (Procedure.start .reduce (.ofGrammar g) config).ComesTo Procedure.library final ∧
      final.materialize = .ok (.ofGrammar g') ∧ g'.outline.language = g₀.outline.language := by
  obtain ⟨-, hintact⟩ := hbuilt.intact hfinalize
  obtain ⟨g', hcomes, hintact', houtline, -⟩ := exists_comesTo hfinalize hintact
  refine ⟨_, g', hcomes config, Snapshot.materialize_ofGrammar hintact', ?_⟩
  rw [houtline, Outline.language_reduced hintact.closed hintact.named]

theorem keeps_language_sample :
    ∃ final g', (Procedure.start .reduce (.ofGrammar sample) {}).ComesTo Procedure.library final ∧
      final.materialize = .ok (.ofGrammar g') ∧ g'.outline.language = sample.outline.language :=
  keeps_language built_sample finalize_sample {}

/-- **The reduction leads exactly to the reduced form.**

Left over are the nonterminals that the start symbol leads to by rules between productive
nonterminals, loops apart, and the rules of those that mention productive nonterminals only. -/
theorem reaches_reduced_form (hbuilt : g.Built)
    (hfinalize : Grammar.finalize.apply g = (.ok (), g₀)) :
    ∃ g' : Grammar, (∀ config : RunConfig, (Procedure.start .reduce (.ofGrammar g) config).ComesTo
        Procedure.library (Snapshot.ofGrammar g').toData) ∧
      (Snapshot.ofGrammar g').toData.materialize = .ok (.ofGrammar g') ∧
      (∀ x, x ∈ g'.outline.nonterminals ↔ g₀.outline.ReachableBy
        {key ∈ g₀.outline.rules | key.isLoop = false ∧
          g₀.outline.Within g₀.outline.productive key} x) ∧
      (∀ key, key ∈ g'.outline.rules ↔ key ∈ g₀.outline.rules ∧ key.isLoop = false ∧
        key.left ∈ g'.outline.nonterminals ∧
        ∀ s ∈ key.right.symbols, s ∈ g₀.outline.nonterminals → s ∈ g₀.outline.productive) ∧
      g'.outline.terminals = g₀.outline.terminals ∧ g'.start = g₀.start ∧ Plain g' ∧
      check g' = true ∧
      ∀ config : RunConfig, (Procedure.start .reduce (.ofGrammar g') config).ComesTo
        Procedure.library (Snapshot.ofGrammar g').toData := by
  obtain ⟨-, hintact⟩ := hbuilt.intact hfinalize
  have hclosed := hintact.closed
  have hnamed := hintact.named
  obtain ⟨g', hcomes, hintact', houtline, hplain⟩ := exists_comesTo hfinalize hintact
  have hreduced : g'.outline.IsReduced := houtline ▸ Outline.isReduced_reduced hclosed hnamed
  have hnonterminals : ∀ x, x ∈ g'.outline.nonterminals ↔ x ∈ g₀.outline.generatingPart.Reachable :=
    fun x => by rw [houtline, Outline.mem_nonterminals_reduced hclosed]
  refine ⟨g', hcomes, Snapshot.materialize_ofGrammar hintact', fun x => ?_, fun key => ?_, ?_, ?_,
    hplain, (check_iff hintact'.closed).mpr hreduced, ?_⟩
  · rw [hnonterminals, Outline.reachable_generatingPart]
    rfl
  · rw [hnonterminals, houtline, Outline.mem_rules_reduced hclosed]
  · rw [houtline]
    rfl
  · exact congrArg Outline.start houtline
  · -- A second reduction leads to an untagged grammar with the same outline, so to the same one.
    obtain ⟨g'', hcomes', hintact'', houtline', hplain'⟩ :=
      exists_comesTo hintact'.finalize_eq hintact'
    rw [hreduced.reduced_eq hintact'.closed hintact'.named] at houtline'
    obtain rfl : g'' = g' := hplain'.ext hplain hintact''.dense hintact'.dense houtline'
    exact hcomes'

theorem reaches_reduced_form_sample :
    ∃ g' : Grammar, (∀ config : RunConfig,
        (Procedure.start .reduce (.ofGrammar sample) config).ComesTo Procedure.library
          (Snapshot.ofGrammar g').toData) ∧
      g'.start = "S" ∧ check g' = true := by
  obtain ⟨g', hcomes, -, -, -, -, hstart, -, hcheck, -⟩ :=
    reaches_reduced_form built_sample finalize_sample
  exact ⟨g', hcomes, hstart, hcheck⟩

end Reduction

end Chronicle
