import Chronicle.Proofs.Reduction.Outcome
import Chronicle.Proofs.Run.Logs
import Mathlib.Data.List.Range
/-!
The rounds of the reduction as they are recorded.

Every step of the reduction is at home on one level (`graded_library`), and the plan tells which
steps are made and what they leave (`exists_runs`).  So it is known which step has which label, and
what its record shows, however the reduction is driven (`follows_of_runs`).

For the two sets this is read off in the end (`rounds_recorded`).  In the first phase the round with
number `j` stands at `3.(j+1)`, and after it the nonterminals are known that have a derivation tree
of height `j + 1`; in the other one it stands at `4.(j+1)`, and the nonterminals are known that `j`
rules lead to.
-/

namespace Chronicle

namespace Reduction

variable {o o' : Outline} {g g₀ : Grammar} {k m : Nat} {path : List Nat}
  {e : Plan.Entry Procedure.Step} {φ : Phase} {r : Run Procedure.Step} {id : NodeId}

/-! ### The levels of the steps -/

/-- How far below the root the step is at home. -/
def Step.level : Step → Nat
  | .main => 0
  | .removeSelfLoops | .removeNongenerating | .removeUnreachable | .cleanUp => 1
  | .initGenerating | .growGenerating | .removeOutsideGenerating => 2
  | .initReachable | .growReachable | .removeOutsideReachable => 2

/-- The level of a job in a run of the reduction. -/
def level : Job Procedure.Step → Option Nat
  | .opening (.reduction .main) => some 0
  | .initialState => some 1
  | .named (.reduction step) => some step.level
  | _ => none

/-- **The steps of the reduction schedule steps right below them.** -/
theorem graded_library : Procedure.library.Graded level := by
  have hprogram : ∀ (step : Step) (run : Run Procedure.Step), (Procedure.library
      (.reduction step)).Always (Request.SchedulesBelow level step.level) run := by
    intro step run
    cases step with
    | main =>
        exact .bind (.demand trivial) fun _ _ => .bind (.schedule rfl) fun _ _ =>
          .bind (.schedule rfl) fun _ _ => .bind (.schedule rfl) fun _ _ => .schedule rfl
    | removeNongenerating =>
        exact .bind (.demand trivial) fun _ _ => .bind (.schedule rfl) fun _ _ =>
          .bind (.schedule rfl) fun _ _ => .schedule rfl
    | removeUnreachable =>
        exact .bind (.demand trivial) fun _ _ => .bind (.demand trivial) fun _ _ =>
          .bind (.schedule rfl) fun _ _ => .bind (.schedule rfl) fun _ _ => .schedule rfl
    | growGenerating | growReachable =>
        refine .bind (.demand trivial) fun _ _ => .bind (.demand trivial) fun more _ => ?_
        cases more with
        | true => exact .demand trivial
        | false => exact .pure ()
    | _ => exact .bind (.demand trivial) fun _ _ => .demand trivial
  intro job k hk run
  cases job with
  | initialState => exact .demand trivial
  | named program =>
      cases program with
      | loopRemoval step => cases hk
      | reduction step =>
          obtain rfl := Option.some.inj hk
          exact hprogram step run
  | opening main =>
      match main, hk with
      | .reduction .main, hk =>
          obtain rfl := Option.some.inj hk
          exact .bind (.demand rfl) fun _ run => hprogram .main run

/-! ### The places of the steps -/

theorem Phase.isChain_places (φ : Phase) (k : Nat) :
    (φ.places k).IsChain fun path next => next = Forest.onward path next.length := by
  refine .cons ?_ fun path hpath => ?_
  · rw [List.isChain_map, List.isChain_range_succ]
    exact fun j _ => rfl
  · rw [List.head?_map, List.head?_range] at hpath
    obtain rfl := Option.some.inj hpath
    rfl

theorem Phase.getLast?_places (φ : Phase) (k : Nat) :
    (φ.places k).getLast? = some [φ.place, k + 2] := by
  rw [places, List.range_succ, List.map_append, ← List.cons_append]
  exact List.getLast?_concat

/-- What comes behind a phase is the next step below the root. -/
theorem Phase.isChain_places_append (φ : Phase) (k : Nat) {rest : List (List Nat)}
    (hrest : rest.IsChain fun path next => next = Forest.onward path next.length)
    (hhead : rest.head? = some [φ.place + 1]) :
    (φ.places k ++ rest).IsChain fun path next => next = Forest.onward path next.length := by
  refine List.isChain_append.mpr ⟨φ.isChain_places k, hrest, fun path hpath next hnext => ?_⟩
  rw [φ.getLast?_places] at hpath
  rw [hhead] at hnext
  obtain rfl := Option.some.inj hpath
  obtain rfl := Option.some.inj hnext
  rfl

theorem isChain_places (k m : Nat) :
    (places k m).IsChain fun path next => next = Forest.onward path next.length := by
  have hreachable := reachablePhase.isChain_places_append m (.singleton [5]) rfl
  have hgenerating := generatingPhase.isChain_places_append k hreachable rfl
  exact .cons_cons rfl (.cons_cons rfl (.cons_cons rfl hgenerating))

theorem Phase.At.level_eq (h : φ.At o k path e) (henter : φ.enter.level = 1)
    (hbelow : ∀ step ∈ [φ.first, φ.grow, φ.leave], step.level = 2) :
    level e.job = some path.length := by
  cases h with
  | enter record => exact congrArg some henter
  | leave record => exact congrArg some (hbelow φ.leave (by simp))
  | round _ shown =>
      rw [shown.1]
      exact congrArg some (hbelow _ (by split <;> simp))

/-- Each step is at home on the level of its place. -/
theorem At.level_eq (h : At o k m path e) : level e.job = some path.length := by
  cases h with
  | opening => rfl
  | initialState => rfl
  | removeSelfLoops => rfl
  | cleanUp => rfl
  | generating h => exact h.level_eq rfl (by decide)
  | reachable h => exact h.level_eq rfl (by decide)

/-! ### Which phase is at which place -/

/-- The node is at a place of the phase, or it is one of its rounds. -/
def Phase.Claims (φ : Phase) (path : List Nat) (e : Plan.Entry Procedure.Step) : Prop :=
  path.head? = some φ.place ∨ e.job = job φ.grow

theorem job_injective : Function.Injective job := by
  intro step step' h
  injection h with h
  injection h

/-- Phases at different places and with different steps have nothing in common. -/
theorem Phase.At.not_claims {φ' : Phase} (h : φ.At o k path e) (hplace : φ'.place ≠ φ.place)
    (hgrow : φ'.grow ∉ [φ.enter, φ.first, φ.grow, φ.leave]) : ¬φ'.Claims path e := by
  intro hclaims
  obtain ⟨hhead, step, hstep, hjob⟩ : path.head? = some φ.place ∧
      ∃ step ∈ [φ.enter, φ.first, φ.grow, φ.leave], e.job = job step := by
    cases h with
    | enter record => exact ⟨rfl, φ.enter, by simp, rfl⟩
    | leave record => exact ⟨rfl, φ.leave, by simp, rfl⟩
    | @round j e hj shown =>
        refine ⟨rfl, if j = 0 then φ.first else φ.grow, ?_, shown.1⟩
        split <;> simp
  rcases hclaims with hpath | hround
  · exact hplace (Option.some.inj (hpath.symm.trans hhead))
  · exact hgrow (job_injective (hround.symm.trans hjob) ▸ hstep)

theorem At.of_generating (h : At o k m path e) (hclaims : generatingPhase.Claims path e) :
    generatingPhase.At o.dropLoops k path e := by
  cases h with
  | generating h => exact h
  | reachable h => exact absurd hclaims (h.not_claims (by decide) (by decide))
  | opening | initialState | removeSelfLoops | cleanUp =>
      rcases hclaims with hpath | hround
      · cases hpath
      · cases hround

theorem At.of_reachable (h : At o k m path e) (hclaims : reachablePhase.Claims path e) :
    reachablePhase.At o.generatingPart m path e := by
  cases h with
  | reachable h => exact h
  | generating h => exact absurd hclaims (h.not_claims (by decide) (by decide))
  | opening | initialState | removeSelfLoops | cleanUp =>
      rcases hclaims with hpath | hround
      · cases hpath
      · cases hround

/-! ### What the records show -/

/-- What is recorded is what the plan says, at its place, and in the end all of it is. -/
structure Follows (o : Outline) (k m : Nat) (r : Run Procedure.Step) : Prop where
  at_place : ∀ {id n data}, r.timeline.node? id = some n → r.recordAt id = .ok (some data) →
    At o k m n.label.path ⟨n.program, data⟩
  recorded : r.phase = .finished → ∀ path ∈ places k m, ∃ id n data,
    r.timeline.node? id = some n ∧ n.label = ⟨path⟩ ∧ r.recordAt id = .ok (some data)

/-- **However the reduction is driven, what it has recorded is what the plan says.** -/
theorem follows_of_runs {begun : List (Run Procedure.Step)} {initial : Snapshot}
    {config : RunConfig} {final : SnapshotData} {log : List (Plan.Entry Procedure.Step)}
    (h : Run.Driven Procedure.library (.ofJob initial (.opening (.reduction .main)) config) begun r)
    (hruns : Plan.Runs Procedure.library final ⟨0, [.opening (.reduction .main)], initial⟩ log)
    (hat : List.Forall₂ (At o k m) (places k m) log) : Follows o k m r := by
  obtain ⟨hlogged, harchived, hcount⟩ := h.logged hruns
  obtain ⟨hlabels, hfits⟩ := hlogged.placed h.tracked.1 (h.graded graded_library rfl)
    (isChain_places k m) rfl hat fun _ _ => At.level_eq
  have hlabelOf : ∀ {id : NodeId} {n : Node (Job Procedure.Step)},
      r.timeline.node? id = some n → r.timeline.labelOf id = n.label := fun hn => by
    rw [Timeline.labelOf, hn]
    rfl
  constructor
  · intro id n data hn hrecord
    obtain ⟨n', hcore, hstatus, hstate⟩ := Run.recordAt_eq_ok.mp hrecord
    rw [Timeline.core?, hn, Option.map_some, Option.some.injEq] at hcore
    subst hcore
    have hid : id ∈ r.timeline.chronological.take r.steps := by
      by_contra hnot
      have hscheduled := (harchived id n hn).trans (if_neg hnot)
      cases hscheduled.symm.trans hstatus
    obtain ⟨⟨job, record⟩, ⟨n', hcore, hjob, -, hstate'⟩, hplace⟩ := hfits id hid
    rw [Timeline.core?, hn, Option.map_some, Option.some.injEq] at hcore
    subst hcore
    obtain rfl : data = record := SnapshotState.archived.inj (hstate.symm.trans hstate')
    obtain rfl : n.program = job := hjob
    rwa [hlabelOf hn] at hplace
  · intro hfinished path hpath
    have hall : (places k m).take r.steps = places k m := by
      rw [hcount hfinished, ← hat.length_eq, List.take_length]
    rw [← hall, ← hlabels] at hpath
    obtain ⟨id, hid, rfl⟩ := List.mem_map.mp hpath
    obtain ⟨e, hentry, -⟩ := hfits id hid
    obtain ⟨n, hn, -⟩ := hentry.exists_node
    exact ⟨id, n, e.record, hn, (hlabelOf hn).symm, Run.recordAt_eq_ok.mpr hentry.record⟩

/-- What is to be read off the records of a phase over `o`, if `sets j` is known after the round
with number `j`, and the round `last` is the last. -/
structure Phase.Recounts (φ : Phase) (o : Outline) (sets : Nat → Set String) (last : Nat)
    (r : Run Procedure.Step) : Prop where
  /-- The record at the place of a round is that of the round, and shows the set. -/
  shows : ∀ {id n data j}, r.timeline.node? id = some n → r.recordAt id = .ok (some data) →
    j ≤ last → n.label = ⟨[φ.place, j + 1]⟩ →
    n.program = job (if j = 0 then φ.first else φ.grow) ∧
      data.Shows o φ.id (roundName φ.letter j) (sets j)
  /-- There are no other rounds. -/
  rounds : ∀ {id n data}, r.timeline.node? id = some n → r.recordAt id = .ok (some data) →
    n.program = job φ.grow → ∃ j, 0 < j ∧ j ≤ last ∧ n.label = ⟨[φ.place, j + 1]⟩
  /-- In the end all rounds are recorded. -/
  recorded : r.phase = .finished → ∀ j ≤ last, ∃ id n data, r.timeline.node? id = some n ∧
    n.label = ⟨[φ.place, j + 1]⟩ ∧ r.recordAt id = .ok (some data)

/-- What has been recorded of a run that follows the plan says of a phase what is to be said. -/
theorem Follows.recounts {sets : Nat → Set String} {last : Nat} (h : Follows o k m r)
    (hmine : ∀ {path e}, At o k m path e → φ.Claims path e → φ.At o' last path e)
    (hplaces : φ.places last ⊆ places k m) (hgrow : φ.grow ∉ [φ.enter, φ.first, φ.leave])
    (hsets : ∀ j, φ.members o' j = sets j) : φ.Recounts o' sets last r := by
  constructor
  · intro id n data j hn hrecord hj hlabel
    have hat := h.at_place hn hrecord
    rw [hlabel] at hat
    have hmine := hmine hat (.inl rfl)
    generalize he : (⟨n.program, data⟩ : Plan.Entry Procedure.Step) = e at hmine
    cases hmine with
    | round hj' shown =>
        subst he
        rw [← hsets]
        exact shown
    | leave record => omega
  · intro id n data hn hrecord hround
    have hmine := hmine (h.at_place hn hrecord) (.inr hround)
    have hne : ∀ step ∈ [φ.enter, φ.first, φ.leave], n.program ≠ job step := by
      intro step hstep heq
      exact hgrow (job_injective (hround.symm.trans heq) ▸ hstep)
    generalize hpath : n.label.path = path at hmine
    generalize he : (⟨n.program, data⟩ : Plan.Entry Procedure.Step) = e at hmine
    cases hmine with
    | enter record => exact absurd (congrArg Plan.Entry.job he) (hne _ (by simp))
    | leave record => exact absurd (congrArg Plan.Entry.job he) (hne _ (by simp))
    | @round j e hj shown =>
        subst he
        refine ⟨j, Nat.pos_of_ne_zero fun hzero => ?_, hj, congrArg Label.mk hpath⟩
        exact hne φ.first (by simp) (shown.1.trans (by rw [if_pos hzero]))
  · intro hfinished j hj
    refine h.recorded hfinished _ (hplaces (List.mem_cons_of_mem _ (List.mem_map.mpr ?_)))
    exact ⟨j, List.mem_range.mpr (by omega), rfl⟩

/-! ### The sets -/

theorem members_generatingPhase (hclosed : o.Closed) (hnamed : o.Named) (j : Nat) :
    generatingPhase.members o j = o.derivableWithin (j + 1) := by
  have hopening : generatingPhase.opening o = ∅ ∪ o.generatingOver ∅ := (Set.empty_union _).symm
  rw [Phase.members, hopening]
  refine (Outline.after_union o.generatingOver ∅ j).trans ?_
  exact Set.ext fun _ => Outline.mem_after_generatingOver hclosed hnamed

theorem members_reachablePhase (o : Outline) (j : Nat) :
    reachablePhase.members o j = o.reachableWithin j :=
  Set.ext fun _ => Outline.mem_after_reachableOver

theorem isLast_generatingPhase (hclosed : o.Closed) (hnamed : o.Named) :
    generatingPhase.IsLast o k ↔
      IsLeast {j | 0 < j ∧ o.derivableWithin (j + 1) = o.derivableWithin j} k := by
  have hsame : {j | 0 < j ∧ generatingPhase.members o j = generatingPhase.members o (j - 1)}
      = {j | 0 < j ∧ o.derivableWithin (j + 1) = o.derivableWithin j} := by
    ext j
    refine and_congr_right fun hj => ?_
    rw [members_generatingPhase hclosed hnamed, members_generatingPhase hclosed hnamed,
      Nat.sub_add_cancel hj]
  rw [Phase.IsLast, hsame]

theorem isLast_reachablePhase : reachablePhase.IsLast o m ↔
    IsLeast {j | 0 < j ∧ o.reachableWithin j = o.reachableWithin (j - 1)} m := by
  simp only [Phase.IsLast, members_reachablePhase]

/-- **The records of the rounds mean what they say**, for every grammar that can be built and
finalized.

Let `o₁` be what is left of the finalized grammar without its loops.  After round `j` the first set
has the name `S/j`, and holds the nonterminals with a derivation tree over `o₁` of height at most
`j + 1`; at first, those with a rule that has no nonterminal on the right.  The other set has the
name `H/j`, and holds the nonterminals that at most `j` rules lead to in what the first phase
leaves.  Both times the last round is the first that finds nothing new.  The number in a name is a
machine word of 32 bits (`roundName`), the one in a label is not. -/
theorem rounds_recorded (hbuilt : g.Built) (hfinalize : Grammar.finalize.apply g = (.ok (), g₀)) :
    let o₁ := g₀.outline.dropLoops
    let o₂ := g₀.outline.generatingPart
    ∃ k m : Nat,
      IsLeast {j | 0 < j ∧ o₁.derivableWithin (j + 1) = o₁.derivableWithin j} k ∧
      IsLeast {j | 0 < j ∧ o₂.reachableWithin j = o₂.reachableWithin (j - 1)} m ∧
      o₁.derivableWithin 1
        = {x | ∃ key ∈ o₁.rules, key.left = x ∧ ∀ s ∈ key.right.symbols, s ∉ o₁.nonterminals} ∧
      ∀ config : RunConfig,
        (∃ enough, ∀ rounds, enough ≤ rounds → ∃ r, (Run.execute Procedure.library rounds).apply
          (Procedure.start .reduce (.ofGrammar g) config) = (.ok .finished, r)) ∧
        ∀ r, (Procedure.start .reduce (.ofGrammar g) config).Reaches Procedure.library r →
          r.phase ≠ .aborted ∧
          generatingPhase.Recounts o₁ (fun j => o₁.derivableWithin (j + 1)) k r ∧
          reachablePhase.Recounts o₂ o₂.reachableWithin m r := by
  intro o₁ o₂
  obtain ⟨-, hintact⟩ := hbuilt.intact hfinalize
  have hclosed : o₁.Closed := hintact.closed.dropLoops
  have hnamed : o₁.Named := hintact.named.dropLoops
  obtain ⟨g', k, m, log, hruns, -, hk, hm, hat⟩ := exists_runs hfinalize hintact
  have hcomes := fun config => Run.comesTo_ofJob config hruns
  refine ⟨k, m, (isLast_generatingPhase hclosed hnamed).mp hk, isLast_reachablePhase.mp hm,
    Outline.derivableWithin_one hclosed hnamed, fun config => ⟨?_, fun r hreaches => ?_⟩⟩
  · obtain ⟨enough, hexecute⟩ := (hcomes config).execute
    refine ⟨enough, fun rounds hrounds => ?_⟩
    obtain ⟨r, hrun, -⟩ := hexecute rounds hrounds
    exact ⟨r, hrun⟩
  · obtain ⟨begun, hdriven⟩ := hreaches.driven
    have hfollows := follows_of_runs hdriven hruns hat
    refine ⟨((hcomes config).driven r hreaches).1, ?_, ?_⟩
    · refine hfollows.recounts At.of_generating (fun path hpath => ?_) (by decide)
        (members_generatingPhase hclosed hnamed)
      exact List.mem_append_right _ (List.mem_append_left _ hpath)
    · refine hfollows.recounts At.of_reachable (fun path hpath => ?_) (by decide)
        (members_reachablePhase o₂)
      exact List.mem_append_right _ (List.mem_append_right _ (List.mem_append_left _ hpath))

/-- The reduction of the sample, driven to its end by one request. -/
theorem rounds_recorded_sample :
    ∃ r, (Procedure.start .reduce (.ofGrammar sample) {}).Reaches Procedure.library r ∧
      r.phase = .finished ∧ ∃ id n data, r.timeline.node? id = some n ∧ n.label = ⟨[3, 1]⟩ ∧
        r.recordAt id = .ok (some data) ∧
        data.Shows sample.outline.dropLoops "generating" "S/0"
          (sample.outline.dropLoops.derivableWithin 1) := by
  obtain ⟨k, m, -, -, -, hruns⟩ := rounds_recorded built_sample finalize_sample
  obtain ⟨-, hrecords⟩ := hruns {}
  have hreaches := Run.Reaches.command
    (.refl : Run.Reaches Procedure.library (Procedure.start .reduce (.ofGrammar sample) {}) _)
    (Script.demand (.execute 1))
  generalize hr : ((Run.command Procedure.library (Script.demand (.execute 1))).apply
    (Procedure.start .reduce (.ofGrammar sample) {})).2 = r at hreaches
  have hfinished : r.phase = .finished := by subst hr; decide +kernel
  obtain ⟨-, hgenerating, -⟩ := hrecords r hreaches
  obtain ⟨id, n, data, hn, hlabel, hrecord⟩ := hgenerating.recorded hfinished 0 (Nat.zero_le k)
  obtain ⟨-, hshows⟩ := hgenerating.shows hn hrecord (Nat.zero_le k) hlabel
  exact ⟨r, hreaches, hfinished, id, n, data, hn, hlabel, hrecord, hshows⟩

end Reduction

end Chronicle
