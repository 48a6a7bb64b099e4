import Chronicle.Proofs.Run.Counting
import Chronicle.Proofs.Run.Settings
/-!
Batches of steps.

A host drives a run by single steps, by batches or by whole executions, and it can change the
settings before each call (`driveBy`).  All of these make steps and nothing else: after any calls
the run is what some number of steps makes of it (`stepped`), and the first call that fails answers
what the first step that fails does (`failing`).  This is `Stepwise`, and it goes through the parts
of the calls.

How many steps were started can be read off the run (`started`), because a run that is over starts
no more.  So two ways of driving with the same number of started steps have come to the same run:
`batching_is_invisible`.
-/

namespace Chronicle

/-- The error of a result, if it is one. -/
def errorOf {α : Type} : Except EngineError α → Option EngineError
  | .error e => some e
  | .ok _ => none

/-- The first error among the answers. -/
def failure? {α : Type} (answers : List (Except EngineError α)) : Option EngineError :=
  answers.findSome? errorOf

namespace Run

variable {P α β : Type} {library : Library P} {r r' r₀ : Run P} {n : Nat}

/-! ### Step by step -/

/-- The run after so many steps, those that a run refuses or ignores included. -/
def stepped (library : Library P) : (count : Nat) → Run P → Run P
  | 0, r => r
  | count + 1, r => stepped library count ((step library).apply r).2

/-- The error of the first of so many steps that fails. -/
def failing (library : Library P) : (count : Nat) → Run P → Option EngineError
  | 0, _ => none
  | count + 1, r =>
    match (step library).apply r with
    | (.error e, _) => some e
    | (.ok _, next) => failing library count next

theorem stepped_add (library : Library P) (m n : Nat) (r : Run P) :
    stepped library (m + n) r = stepped library n (stepped library m r) := by
  induction m generalizing r with
  | zero => rw [Nat.zero_add]; rfl
  | succ m ih =>
      rw [Nat.succ_add]
      exact ih _

theorem failing_add (library : Library P) (m n : Nat) (r : Run P) :
    failing library (m + n) r
      = (failing library m r).or (failing library n (stepped library m r)) := by
  induction m generalizing r with
  | zero => rw [Nat.zero_add]; rfl
  | succ m ih =>
      rw [Nat.succ_add]
      simp only [failing, stepped]
      rcases (step library).apply r with ⟨e | more, next⟩
      · rfl
      · exact ih _

/-- A step that is refused or ignored changes nothing. -/
theorem step_of_ne_idle (h : r.phase ≠ .idle) (library : Library P) :
    ((step library).apply r).2 = r := by
  rw [step, Edit.apply_mk]
  cases hphase : r.phase <;> first | exact absurd hphase h | rfl

theorem stepped_of_ne_idle (h : r.phase ≠ .idle) (library : Library P) (count : Nat) :
    stepped library count r = r := by
  induction count with
  | zero => rfl
  | succ count ih => rw [stepped, step_of_ne_idle h, ih]

/-- A finished run has no step left that could fail. -/
theorem failing_of_finished (h : r.phase = .finished) (library : Library P) (count : Nat) :
    failing library count r = none := by
  induction count with
  | zero => rfl
  | succ count ih =>
      have hstep : (step library).apply r = (.ok false, r) := by rw [step, Edit.apply_mk, h]
      rw [failing, hstep]
      exact ih

/-- **Of so many steps only those count that are started.**  The steps that are refused or ignored
come last. -/
theorem exists_stepped (h : r.phase = .idle ∨ r.phase = .finished) (library : Library P)
    (count : Nat) :
    ∃ m, stepped library count r = stepped library m r ∧
      failing library count r = failing library m r ∧
      (stepped library m r).started = r.started + m := by
  induction count generalizing r with
  | zero => exact ⟨0, rfl, rfl, rfl⟩
  | succ count ih =>
      rcases h with hidle | hfinished
      · have hstep := stepped_step hidle library
        have hstarted := hstep.started_eq hidle
        rcases hres : (step library).apply r with ⟨e | more, next⟩
        · -- The step fails, and what follows it is refused.
          rw [hres] at hstep hstarted
          have hphase : next.phase ≠ .idle := by
            cases hstep with
            | failed _ phase _ => rw [phase]; simp
          refine ⟨1, ?_, ?_, ?_⟩
          · simp only [stepped, hres]
            exact stepped_of_ne_idle hphase library count
          · simp only [failing, hres]
          · simp only [stepped, hres]
            exact hstarted
        · rw [hres] at hstep hstarted
          obtain ⟨m, hrun, hfailing, hcount⟩ := ih hstep.phase_of_ok
          refine ⟨m + 1, ?_, ?_, ?_⟩
          · simp only [stepped, hres]
            exact hrun
          · simp only [failing, hres]
            exact hfailing
          · simp only [stepped, hres]
            rw [hcount, hstarted]
            omega
      · exact ⟨0, stepped_of_ne_idle (by simp [hfinished]) library _,
          failing_of_finished hfinished library _, rfl⟩

/-- If a step fails, the run is aborted. -/
theorem phase_of_failing (h : r.phase = .idle ∨ r.phase = .finished) {count : Nat}
    {e : EngineError} (hfailing : failing library count r = some e) :
    (stepped library count r).phase = .aborted := by
  induction count generalizing r with
  | zero => cases hfailing
  | succ count ih =>
      rcases h with hidle | hfinished
      · have hstep := stepped_step hidle library
        simp only [failing, stepped] at hfailing ⊢
        rcases hres : (step library).apply r with ⟨e' | more, next⟩
        · rw [hres] at hstep
          have hphase : next.phase = .aborted := by
            cases hstep with
            | failed _ phase _ => exact phase
          rw [stepped_of_ne_idle (by simp [hphase])]
          exact hphase
        · rw [hres] at hfailing hstep
          exact ih hstep.phase_of_ok hfailing
      · rw [failing_of_finished hfinished] at hfailing
        cases hfailing

/-! ### The operations that drive a run -/

/-- In `r`, the edit makes some number of steps and nothing else, and fails as they do. -/
def Stepwise (library : Library P) (e : Edit (Run P) α) (r : Run P) : Prop :=
  ∃ count, (e.apply r).2 = stepped library count r ∧
    errorOf (e.apply r).1 = failing library count r

namespace Stepwise

theorem pure (a : α) : Stepwise library (pure a) r := ⟨0, rfl, rfl⟩

theorem step : Stepwise library (step library) r := by
  refine ⟨1, rfl, ?_⟩
  rw [failing]
  rcases (Run.step library).apply r with ⟨e | more, next⟩ <;> rfl

/-- One edit after the other: if the first fails, the second makes no step. -/
theorem bind {e : Edit (Run P) α} {f : α → Edit (Run P) β} (he : Stepwise library e r)
    (hf : ∀ a, Stepwise library (f a) (e.apply r).2) : Stepwise library (e >>= f) r := by
  obtain ⟨m, hrun, hfailing⟩ := he
  rw [Stepwise, Edit.apply_bind]
  rcases hres : e.apply r with ⟨err | a, next⟩
  · rw [hres] at hrun hfailing
    exact ⟨m, hrun, hfailing⟩
  · rw [hres] at hrun hfailing
    obtain ⟨n, hrun', hfailing'⟩ := hf a
    rw [hres] at hrun' hfailing'
    obtain rfl : next = stepped library m r := hrun
    refine ⟨m + n, ?_, ?_⟩
    · rw [stepped_add]
      exact hrun'
    · rw [failing_add, ← hfailing, errorOf, Option.none_or]
      exact hfailing'

theorem runSteps (count : Nat) : Stepwise library (runSteps library count) r := by
  induction count generalizing r with
  | zero => exact pure _
  | succ count ih =>
      refine step.bind fun more => ?_
      cases more with
      | true => exact ih
      | false => exact pure _

theorem resume : Stepwise library (resume library) r := runSteps _

theorem runBatches (rounds : Nat) : Stepwise library (runBatches library rounds) r := by
  induction rounds generalizing r with
  | zero => exact pure _
  | succ rounds ih =>
      refine resume.bind fun state => ?_
      cases state with
      | finished => exact pure _
      | yielded => exact ih

theorem execute (h : r.Steady) (rounds : Nat) : Stepwise library (execute library rounds) r := by
  have hexecute :
      (Run.execute library rounds).apply r = (Run.runBatches library rounds).apply r := by
    rw [apply_execute, if_neg (by simp [h.running, h.hook]), h.start]
  rw [Stepwise, hexecute]
  exact runBatches rounds

end Stepwise

/-- What a host can call to drive a run. -/
inductive Call
  | step
  | resume
  | execute (rounds : Nat)

/-- A call is the operation of that name; a step answers whether there is more to do. -/
def Call.edit (library : Library P) : Call → Edit (Run P) RunState
  | .step => do return if ← Run.step library then .yielded else .finished
  | .resume => Run.resume library
  | .execute rounds => Run.execute library rounds

/-- Drive a run by calls, each under its own settings; answers what the calls answer. -/
def driveBy (library : Library P) :
    List (RunConfig × Call) → Run P → List (Except EngineError RunState) × Run P
  | [], r => ([], r)
  | (config, call) :: calls, r =>
    let (answer, next) := (call.edit library).apply { r with config }
    let (answers, last) := driveBy library calls next
    (answer :: answers, last)

theorem Call.stepwise (call : Call) (h : r.Steady) : Stepwise library (call.edit library) r := by
  cases call with
  | step => exact Stepwise.step.bind fun more => .pure _
  | resume => exact .resume
  | execute rounds => exact .execute h rounds

/-! ### Under other settings -/

section

variable (hlibrary : ∀ p, (library p).run.IgnoresConfig)

include hlibrary

theorem stepped_config (count : Nat) (r : Run P) (config : RunConfig) :
    stepped library count { r with config } = { stepped library count r with config } := by
  induction count generalizing r with
  | zero => rfl
  | succ count ih =>
      rw [stepped, indifferent_step hlibrary r config]
      exact ih _

theorem config_stepped (count : Nat) (r : Run P) :
    (stepped library count r).config = r.config := by
  induction count generalizing r with
  | zero => rfl
  | succ count ih => exact (ih _).trans ((indifferent_step hlibrary).config_eq r)

theorem failing_config (count : Nat) (r : Run P) (config : RunConfig) :
    failing library count { r with config } = failing library count r := by
  induction count generalizing r with
  | zero => rfl
  | succ count ih =>
      rw [failing, failing, indifferent_step hlibrary r config]
      rcases (step library).apply r with ⟨e | more, next⟩
      · rfl
      · exact ih next

end

theorem Steady.congr (h : r.Steady) (config : RunConfig) : ({ r with config } : Run P).Steady :=
  ⟨h.running, h.hook, by rw [start_config, h.start]⟩

variable {initial : Snapshot} {root : Job P} {config : RunConfig}

theorem Drivable.stepped (h : Drivable library r₀ r) (count : Nat) :
    Drivable library r₀ (stepped library count r) := by
  induction count generalizing r with
  | zero => exact h
  | succ count ih => exact ih (Drives.step r h)

/-- **Calls make steps and nothing else, whatever the settings.** -/
theorem exists_stepped_driveBy (hlibrary : ∀ p, (library p).run.IgnoresConfig)
    (h : Drivable library (ofJob initial root config) r) (calls : List (RunConfig × Call))
    (now : RunConfig) :
    ∃ count config', (driveBy library calls { r with config := now }).2
        = { Run.stepped library count r with config := config' } ∧
      failure? (driveBy library calls { r with config := now }).1 = failing library count r := by
  induction calls generalizing r now with
  | nil => exact ⟨0, now, rfl, rfl⟩
  | cons call calls ih =>
      obtain ⟨next, call⟩ := call
      obtain ⟨begun, hdriven⟩ := id h
      obtain ⟨m, hrun, hfailing⟩ : Stepwise library (call.edit library) { r with config := next } :=
        call.stepwise (hdriven.standing.steady.congr next)
      rw [stepped_config hlibrary] at hrun
      rw [failing_config hlibrary] at hfailing
      obtain ⟨n, config', hrun', hfailing'⟩ := ih (h.stepped m) next
      refine ⟨m + n, config', ?_, ?_⟩
      · rw [stepped_add, ← hrun', ← hrun]
        rfl
      · rw [failing_add, ← hfailing', ← hfailing, ← hrun]
        simp only [driveBy, failure?, List.findSome?_cons]
        cases (errorOf ((call.edit library).apply { r with config := next }).1) <;> rfl

/-- The number of steps that were started tells what calls have come to, whatever the calls and
their settings. -/
theorem driveBy_eq (config : RunConfig) (hlibrary : ∀ p, (library p).run.IgnoresConfig)
    {now : RunConfig} {calls : List (RunConfig × Call)}
    {answers : List (Except EngineError RunState)}
    (h : driveBy library calls (ofJob initial root now) = (answers, r)) :
    Run.stepped library r.started (ofJob initial root config) = { r with config } ∧
      failing library r.started (ofJob initial root config) = failure? answers := by
  have hstart : Drivable library (ofJob initial root config) (ofJob initial root config) :=
    ⟨[], .refl⟩
  obtain ⟨count, last, hrun, hfailing⟩ := exists_stepped_driveBy hlibrary hstart calls now
  have hnow : ({ ofJob initial root config with config := now } : Run P)
      = ofJob initial root now := rfl
  rw [hnow, h] at hrun hfailing
  obtain ⟨m, hstepped, hfails, hstarted⟩ :=
    exists_stepped (r := ofJob initial root config) (Or.inl rfl) library count
  have hzero : (ofJob initial root config).started = 0 := rfl
  have hconfig := config_stepped hlibrary m (ofJob initial root config)
  rw [hstepped] at hrun
  rw [hfails] at hfailing
  generalize hend : Run.stepped library m (ofJob initial root config) = last' at *
  obtain rfl : r = { last' with config := last } := hrun
  have hm : started { last' with config := last } = m := by
    rw [hzero, Nat.zero_add] at hstarted
    exact hstarted
  rw [hm, hend]
  have hsame : last'.config = config := hconfig
  exact ⟨by rw [← hsame], hfailing.symm⟩

/-! ### One batch -/

/-- How a batch of `count` steps ends that is made of a run with so many steps: it yields when all
of them are made, or else the run is over before. -/
inductive Batched (r last : Run P) (count : Nat) : Except EngineError RunState → Prop
  | yielded (steps : last.steps = r.steps + count)
      (phase : 0 < count ∨ r.phase = .idle → last.phase = .idle) :
      Batched r last count (.ok .yielded)
  | finished (phase : last.phase = .finished) : Batched r last count (.ok .finished)
  | failed (e : EngineError) (steps : last.steps < r.steps + count) :
      Batched r last count (.error e)

/-- One step more in front of a batch. -/
theorem Batched.prepend {next last : Run P} {count : Nat} {answer : Except EngineError RunState}
    (h : Batched next last count answer) (hidle : next.phase = .idle)
    (hsteps : next.steps = r.steps + 1) : Batched r last (count + 1) answer := by
  cases h with
  | yielded steps phase => exact .yielded (by omega) fun _ => phase (Or.inr hidle)
  | finished phase => exact .finished phase
  | failed e steps => exact .failed e (by omega)

theorem batched_runSteps (hrunning : r.phase ≠ .running) (hhook : r.phase ≠ .hook)
    (library : Library P) (count : Nat) :
    Batched r ((runSteps library count).apply r).2 count ((runSteps library count).apply r).1 := by
  induction count generalizing r with
  | zero => exact .yielded rfl fun h => h.resolve_left (Nat.lt_irrefl 0)
  | succ count ih =>
      rw [runSteps_succ]
      cases hphase : r.phase with
      | running => exact absurd hphase hrunning
      | hook => exact absurd hphase hhook
      | finished =>
          have hsame : (step library).apply r = (.ok false, r) := by
            rw [step, Edit.apply_mk, hphase]
          rw [hsame]
          exact .finished hphase
      | aborted =>
          have hsame : (step library).apply r = (.error .runAborted, r) := by
            rw [step, Edit.apply_mk, hphase]
          rw [hsame]
          exact .failed _ (by dsimp only; omega)
      | idle =>
          have hone := stepped_step hphase library
          rcases hres : (step library).apply r with ⟨e | more, next⟩
          · rw [hres] at hone
            cases hone with
            | failed _ _ steps => exact .failed e (by dsimp only at steps ⊢; omega)
          · rw [hres] at hone
            cases hone with
            | last phase _ => exact .finished phase
            | more phase steps =>
                have hidle : next.phase = .idle := phase
                exact (ih (by simp [hidle]) (by simp [hidle])).prepend hidle steps

/-- In a driven run there is more to do exactly if not every node had its step. -/
theorem Standing.steps_lt_iff {begun : List (Run P)} (h : Standing library initial begun r)
    (hphase : r.phase = .idle ∨ r.phase = .finished) :
    r.steps < r.timeline.size ↔ r.phase = .idle := by
  cases h with
  | aborted phase => simp [phase] at hphase
  | idle visits jobs state runs told between awaited =>
      obtain ⟨⟨f, hshape, horder⟩, -, -, hcurrent⟩ := between.order_eq
      obtain ⟨hlt, -⟩ := List.getElem?_eq_some_iff.mp hcurrent
      rw [horder, hshape.length_order] at hlt
      simp [hlt, between.phase]
  | finished visits data last runs told closed isLast ends =>
      obtain ⟨-, -, hsteps, -⟩ := closed.order_eq
      simp [hsteps, closed.phase]

/-- **What a batch answers.**  It yields exactly if all its steps were done and there are more to
do, and it says that the run is finished exactly if it does not fail and the run is. -/
theorem resume_answer (h : Reaches library (ofJob initial root config) r) :
    (((resume library).apply r).1 = .ok .yielded ↔
      ((resume library).apply r).2.steps = r.steps + max r.config.batchSteps 1 ∧
      ((resume library).apply r).2.steps < ((resume library).apply r).2.timeline.size) ∧
    (((resume library).apply r).1 = .ok .finished ↔
      (∃ state, ((resume library).apply r).1 = .ok state) ∧
      ((resume library).apply r).2.phase = .finished) := by
  obtain ⟨begun, hdriven⟩ := h.driven
  have hsteady := hdriven.standing.steady
  obtain ⟨begun', hlast⟩ := Drives.resume r ⟨begun, hdriven⟩
  have hstanding := hlast.standing
  have hpositive : 0 < max r.config.batchSteps 1 := by omega
  have hbatch := batched_runSteps hsteady.running hsteady.hook library (max r.config.batchSteps 1)
  have hresume : (resume library).apply r
      = (runSteps library (max r.config.batchSteps 1)).apply r := rfl
  rw [hresume] at hstanding ⊢
  clear hlast
  generalize (runSteps library (max r.config.batchSteps 1)).apply r = outcome at hbatch hstanding ⊢
  obtain ⟨result, last⟩ := outcome
  cases hbatch with
  | yielded steps phase =>
      have hidle : last.phase = .idle := phase (Or.inl hpositive)
      have hlt := (hstanding.steps_lt_iff (Or.inl hidle)).mpr hidle
      refine ⟨⟨fun _ => ⟨steps, hlt⟩, fun _ => rfl⟩, fun hc => (by cases hc), fun hc => ?_⟩
      exact absurd (hidle.symm.trans hc.2) (by simp)
  | finished phase =>
      have hphase : last.phase = .finished := phase
      have hnot := mt (hstanding.steps_lt_iff (Or.inr phase)).mp (by rw [phase]; simp)
      exact ⟨⟨fun hc => (by cases hc), fun hc => absurd hc.2 hnot⟩, fun _ => ⟨⟨_, rfl⟩, hphase⟩,
        fun _ => rfl⟩
  | failed e steps =>
      refine ⟨⟨fun hc => (by cases hc), fun hc => ?_⟩, fun hc => (by cases hc), fun hc => ?_⟩
      · exact absurd hc.1 (Nat.ne_of_lt steps)
      · obtain ⟨⟨state, hstate⟩, -⟩ := hc
        cases hstate

/-- **Batching is invisible.**

Two ways of driving a run by single steps, batches and whole executions, under any settings and
with programs that do not look at them: where they have started the same number of steps, they
have come to the same run but for the settings, and the first call that failed, if any, failed with
the same error.  If one of them fails, then in the last step that it started; the other one fails
with the same error in that step, if it starts it, and starts no other.  A batch yields exactly if
all its steps were done and there are more to do. -/
theorem batching_is_invisible (hlibrary : ∀ p, (library p).run.IgnoresConfig)
    {config' : RunConfig} {calls calls' : List (RunConfig × Call)}
    {answers answers' : List (Except EngineError RunState)}
    (h : driveBy library calls (ofJob initial root config) = (answers, r))
    (h' : driveBy library calls' (ofJob initial root config') = (answers', r')) :
    (r.started = r'.started →
      r' = { r with config := r'.config } ∧ failure? answers' = failure? answers) ∧
    (∀ e, failure? answers = some e → r.phase = .aborted ∧
      (r.started ≤ r'.started → r'.started = r.started ∧ failure? answers' = some e)) ∧
    ∀ s, Reaches library (ofJob initial root config) s →
      (((resume library).apply s).1 = .ok .yielded ↔
        ((resume library).apply s).2.steps = s.steps + max s.config.batchSteps 1 ∧
        ((resume library).apply s).2.steps < ((resume library).apply s).2.timeline.size) ∧
      (((resume library).apply s).1 = .ok .finished ↔
        (∃ state, ((resume library).apply s).1 = .ok state) ∧
        ((resume library).apply s).2.phase = .finished) := by
  obtain ⟨hrun, hfailing⟩ := driveBy_eq config hlibrary h
  obtain ⟨hrun', hfailing'⟩ := driveBy_eq config hlibrary h'
  refine ⟨fun hsame => ⟨?_, ?_⟩, fun e he => ?_, fun s hs => resume_answer hs⟩
  · have hboth : ({ r' with config } : Run P) = { r with config } := by rw [← hrun', ← hsame, hrun]
    exact congrArg (fun s : Run P => { s with config := r'.config }) hboth
  · rw [← hfailing, ← hfailing', hsame]
  · rw [← hfailing] at he
    have hphase : r.phase = .aborted := by
      have hrunPhase := congrArg Run.phase hrun
      rw [phase_of_failing (Or.inl rfl) he] at hrunPhase
      exact hrunPhase.symm
    refine ⟨hphase, fun hle => ?_⟩
    -- Once the run is aborted, no step is started any more.
    obtain ⟨more, hmore⟩ := Nat.exists_eq_add_of_le hle
    have habort : ({ r with config } : Run P).phase ≠ .idle := by simp [hphase]
    rw [hmore, stepped_add, hrun, stepped_of_ne_idle habort] at hrun'
    have hstarted : r'.started = r.started := (congrArg started hrun').symm
    exact ⟨hstarted, by rw [← hfailing', hstarted, he]⟩

/-- Two programs: the first schedules the second, which fails. -/
def faulty : Nat → Script Nat Unit
  | 0 => Script.schedule 1
  | _ => throw .duplicateRoot

/-- A run whose second step fails, in batches of one step and in one execution. -/
theorem batching_is_invisible_faulty :
    ∃ answers r answers' r',
      driveBy faulty [({ batchSteps := 0 }, .resume), ({ batchDelay := 9 }, .step), ({}, .resume)]
        (ofJob oneSymbol (.named 0) {}) = (answers, r) ∧
      driveBy faulty [({ batchSteps := 7 }, .execute 1)] (ofJob oneSymbol (.named 0) {})
        = (answers', r') ∧
      r.started = 2 ∧ r'.started = 2 ∧ r' = { r with config := r'.config } ∧
      failure? answers = some .duplicateRoot ∧ failure? answers' = some .duplicateRoot := by
  have hfaulty : ∀ p, (faulty p).run.IgnoresConfig := by
    intro p
    cases p with
    | zero => exact ⟨trivial, fun answer => by cases answer <;> trivial⟩
    | succ p => trivial
  rcases h : driveBy faulty [({ batchSteps := 0 }, .resume), ({ batchDelay := 9 }, .step),
    ({}, .resume)] (ofJob oneSymbol (.named 0) {}) with ⟨answers, r⟩
  rcases h' : driveBy faulty [({ batchSteps := 7 }, .execute 1)]
    (ofJob oneSymbol (.named 0) {}) with ⟨answers', r'⟩
  have hstarted : r.started = 2 := by
    rw [show r = (answers, r).2 from rfl, ← h]
    decide +kernel
  have hstarted' : r'.started = 2 := by
    rw [show r' = (answers', r').2 from rfl, ← h']
    decide +kernel
  have hfails : failure? answers = some .duplicateRoot := by
    rw [show answers = (answers, r).1 from rfl, ← h]
    decide +kernel
  obtain ⟨hsame, hfailure⟩ := (batching_is_invisible hfaulty h h').1 (by rw [hstarted, hstarted'])
  exact ⟨answers, r, answers', r', rfl, rfl, hstarted, hstarted', hsame, hfails,
    hfailure.trans hfails⟩

end Run

end Chronicle
