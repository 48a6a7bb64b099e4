import Chronicle.Proofs.Reduction.Recorded
/-!
How long the reduction takes.

A step that is repeated asks for its repetition whenever the set has grown, so every round but the
last finds a nonterminal that was not known before.  The nonterminals are those that are left of the
finalized grammar, so there are not more rounds than those, in either phase
(`rounds_le_nonterminalCount`).  The other steps are ten.
-/

namespace Chronicle

namespace Timeline

variable {P : Type} [DecidableEq P]

/-- The nodes of a program, in chronological order. -/
def nodesOf (t : Timeline P) (program : P) : List NodeId :=
  t.chronological.filter fun id => (t.node? id).any (·.program = program)

theorem mem_nodesOf {t : Timeline P} {program : P} {id : NodeId} : id ∈ t.nodesOf program ↔
    id ∈ t.chronological ∧ ∃ n, t.node? id = some n ∧ n.program = program := by
  simp [nodesOf, Option.any_eq_true]

end Timeline

namespace Reduction

variable {o o' : Outline} {g g₀ : Grammar} {φ : Phase} {k m : Nat} {r : Run Procedure.Step}

/-! ### The number of rounds -/

/-- There are not more rounds in a phase than there are nonterminals. -/
theorem Phase.IsLast.le (h : φ.IsLast o k) (hfinite : o.nonterminals.Finite)
    (hopening : φ.opening o ⊆ o.nonterminals) (hadds : ∀ known, φ.adds o known ⊆ o.nonterminals)
    (hsome : o.nonterminals.Nonempty) (hidle : φ.opening o = ∅ → φ.adds o (φ.opening o) = ∅) :
    k ≤ o.nonterminals.ncard :=
  Outline.le_ncard h hfinite (Outline.after_subset hopening fun known _ => hadds known) hsome hidle

theorem generatingOver_subset (hclosed : o.Closed) (known : Set String) :
    o.generatingOver known ⊆ o.nonterminals := by
  intro x hx
  obtain ⟨key, hkey, rfl, -⟩ := hx
  exact hclosed.left key hkey

theorem reachableOver_subset (o : Outline) (known : Set String) :
    o.reachableOver known ⊆ o.nonterminals := by
  intro x hx
  obtain ⟨key, -, -, -, hmem⟩ := hx
  exact hmem

/-- **Neither phase has more rounds than there are nonterminals.** -/
theorem rounds_le_nonterminalCount (hclosed : g₀.outline.Closed)
    (hk : generatingPhase.IsLast g₀.outline.dropLoops k)
    (hm : reachablePhase.IsLast g₀.outline.generatingPart m) :
    k ≤ g₀.nonterminalCount ∧ m ≤ g₀.nonterminalCount := by
  rw [← Grammar.ncard_nonterminals]
  have hfinite := g₀.finite_nonterminals
  have hclosed₁ := hclosed.dropLoops
  have hclosed₂ := hclosed.generatingPart
  constructor
  · refine hk.le hfinite (generatingOver_subset hclosed₁ ∅) (generatingOver_subset hclosed₁)
      ⟨_, hclosed₁.start⟩ fun hempty => ?_
    -- What the set is opened with is what a round finds if nothing is known.
    rw [hempty]
    exact hempty
  · have hsub : g₀.outline.generatingPart.nonterminals ⊆ g₀.outline.nonterminals :=
      fun x hx => hx.1
    refine (hm.le (hfinite.subset hsub) (Set.singleton_subset_iff.mpr hclosed₂.start)
      (reachableOver_subset _) ⟨_, hclosed₂.start⟩ fun hempty => ?_).trans
      (Set.ncard_le_ncard hsub hfinite)
    exact absurd hempty (Set.singleton_ne_empty _)

/-! ### The number of steps -/

theorem Phase.length_places (φ : Phase) (k : Nat) : (φ.places k).length = k + 3 := by
  simp [places]

theorem length_places (k m : Nat) : (places k m).length = k + m + 10 := by
  simp only [places, List.length_append, Phase.length_places, List.length_cons, List.length_nil]
  omega

/-- So many batches finish the reduction, and it leaves the log of its plan. -/
theorem exists_left (hfinalize : Grammar.finalize.apply g = (.ok (), g₀)) (hintact : g₀.Intact)
    (config : RunConfig) :
    ∃ final k m log last, (k ≤ g₀.nonterminalCount ∧ m ≤ g₀.nonterminalCount) ∧
      Plan.Runs Procedure.library final ⟨0, [.opening (.reduction .main)], .ofGrammar g⟩ log ∧
      List.Forall₂ (At g₀.outline k m) (places k m) log ∧ last.Left final log ∧
      ∀ rounds, 10 + 2 * g₀.nonterminalCount ≤ rounds →
        (Run.execute Procedure.library rounds).apply (Procedure.start .reduce (.ofGrammar g) config)
          = (.ok .finished, last) := by
  obtain ⟨g', k, m, log, hruns, -, hk, hm, hat⟩ := exists_runs hfinalize hintact
  have hfew := rounds_le_nonterminalCount hintact.closed hk hm
  obtain ⟨before, r₁, last, hlength, hsteps, hlast, hleft⟩ :=
    (Run.follows_ofJob (.ofGrammar g) _ config).exists_stepsTo hruns
  rw [← hat.length_eq, length_places] at hlength
  exact ⟨_, k, m, log, last, hfew, hruns, hat, hleft,
    fun rounds hrounds => hsteps.execute_eq hlast .finished rfl rfl (by omega)⟩

/-- A node for each round, at most: the labels of the rounds are different. -/
theorem Phase.Recounts.length_nodesOf_le {sets : Nat → Set String} {last : Nat}
    (h : φ.Recounts o sets last r) (hmarked : r.Marked)
    (hrecords : ∀ id n, r.timeline.node? id = some n →
      n.status = .archived ∧ ∃ data, r.recordAt id = .ok (some data)) :
    (r.timeline.nodesOf (job φ.grow)).length ≤ last := by
  obtain ⟨begun, rest, hlabelled⟩ := hmarked
  obtain ⟨f, hshape⟩ := hlabelled.exists_shape
  let labels := (List.range last).map fun j => (⟨[φ.place, j + 2]⟩ : Label)
  have hlabels : ∀ id ∈ r.timeline.nodesOf (job φ.grow), r.timeline.labelOf id ∈ labels := by
    intro id hid
    obtain ⟨-, n, hn, hprogram⟩ := Timeline.mem_nodesOf.mp hid
    obtain ⟨-, data, hrecord⟩ := hrecords id n hn
    obtain ⟨j, hpos, hj, hlabel⟩ := h.rounds hn hrecord hprogram
    refine List.mem_map.mpr ⟨j - 1, List.mem_range.mpr (by omega), ?_⟩
    rw [Timeline.labelOf, hn, Option.map_some, Option.getD_some, hlabel]
    congr 3
    omega
  have hbegun : ∀ id ∈ r.timeline.nodesOf (job φ.grow), id ∈ begun := by
    intro id hid
    obtain ⟨-, n, hn, -⟩ := Timeline.mem_nodesOf.mp hid
    obtain ⟨hstatus, -⟩ := hrecords id n hn
    exact hlabelled.mem_begun hn (.inr (by simp [hstatus]))
  have hnodup : ((r.timeline.nodesOf (job φ.grow)).map r.timeline.labelOf).Nodup := by
    refine List.Nodup.map_on (fun p hp q hq heq =>
      hlabelled.eq_of_label_eq (hbegun p hp) (hbegun q hq) heq) (List.Nodup.filter _ ?_)
    rw [hshape.chronological_eq]
    exact hshape.nodup
  have hsub : (r.timeline.nodesOf (job φ.grow)).map r.timeline.labelOf ⊆ labels := by
    intro label hlabel
    obtain ⟨id, hid, rfl⟩ := List.mem_map.mp hlabel
    exact hlabels id hid
  have hle := (List.subperm_of_subset hnodup hsub).length_le
  simpa [labels] using hle

/-- **The reduction is finished after at most `10 + 2 * n` steps**, if finalizing leaves `n`
nonterminals, and each of the two steps that are repeated is made at most `n` times.

So many batches finish the run, whatever the configuration says of their size. -/
theorem takes_few_steps (hbuilt : g.Built) (hfinalize : Grammar.finalize.apply g = (.ok (), g₀))
    (config : RunConfig) :
    ∃ r, (∀ rounds, 10 + 2 * g₀.nonterminalCount ≤ rounds →
        (Run.execute Procedure.library rounds).apply
          (Procedure.start .reduce (.ofGrammar g) config) = (.ok .finished, r)) ∧
      r.phase = .finished ∧ r.steps = r.timeline.size ∧
      r.steps ≤ 10 + 2 * g₀.nonterminalCount ∧
      (r.timeline.nodesOf (job .growGenerating)).length ≤ g₀.nonterminalCount ∧
      (r.timeline.nodesOf (job .growReachable)).length ≤ g₀.nonterminalCount := by
  obtain ⟨-, hintact⟩ := hbuilt.intact hfinalize
  obtain ⟨final, k, m, log, last, ⟨hkle, hmle⟩, hruns, hat, hleft, hexecute⟩ :=
    exists_left hfinalize hintact config
  obtain ⟨begun, hdriven⟩ := Run.drivable_of_execute (hexecute _ le_rfl)
  have hfollows := follows_of_runs hdriven hruns hat
  have hmarked := hdriven.tracked.1
  have hrecords (id : NodeId) (n : Node (Job Procedure.Step))
      (hn : last.timeline.node? id = some n) := hleft.exists_record hn
  obtain ⟨done, hclosed, hlogged⟩ := hleft
  obtain ⟨-, -, hsize, -⟩ := hclosed.order_eq
  refine ⟨last, hexecute, hclosed.phase, hsize, ?_, ?_, ?_⟩
  · have hdone : last.steps = log.length := hclosed.steps.trans hlogged.length_eq
    rw [← hat.length_eq, length_places] at hdone
    omega
  · have hrecounts : generatingPhase.Recounts _ _ k last :=
      hfollows.recounts At.of_generating
        (fun path hpath => List.mem_append_right _ (List.mem_append_left _ hpath)) (by decide)
        fun _ => rfl
    exact (hrecounts.length_nodesOf_le hmarked hrecords).trans hkle
  · have hrecounts : reachablePhase.Recounts _ _ m last :=
      hfollows.recounts At.of_reachable
        (fun path hpath => List.mem_append_right _ (List.mem_append_right _
          (List.mem_append_left _ hpath))) (by decide) fun _ => rfl
    exact (hrecounts.length_nodesOf_le hmarked hrecords).trans hmle

/-- The sample has three nonterminals. -/
theorem takes_few_steps_sample :
    ∃ r, (Run.execute Procedure.library 16).apply
        (Procedure.start .reduce (.ofGrammar sample) { batchSteps := 2 }) = (.ok .finished, r) ∧
      r.steps ≤ 16 ∧ (r.timeline.nodesOf (job .growGenerating)).length ≤ 3 := by
  obtain ⟨r, hexecute, -, -, hsteps, hgenerating, -⟩ :=
    takes_few_steps built_sample finalize_sample { batchSteps := 2 }
  exact ⟨r, hexecute 16 (by decide), hsteps, hgenerating⟩

end Reduction

end Chronicle
