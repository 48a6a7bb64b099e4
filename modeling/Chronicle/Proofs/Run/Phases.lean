import Chronicle.Proofs.Run.Within
/-!
The phases of a run.

The phase says who may ask for what.  Only a program at work can schedule, have itself repeated or
give its step a name.  While a program or a hook is at work, nobody can drive the run, so that the
run answers those inside just as it would answer them outside (`Within.answer_outside`).  A run
that is finished or aborted is that for good.

From outside a run is always idle, finished or aborted.  A step that is begun in an idle run leads
to one of these three, by its answer (`Stepped`), and nothing but a step leads anywhere: so a run
is aborted exactly if one of its steps failed (`Driven.aborted_iff`).
-/

namespace Chronicle

namespace Run

variable {P α β : Type} {library : Library P} {r r' : Run P} {begun : List (Run P)} {phase : Phase}
  {e : EngineError}

/-! ### Driving by other means than single steps -/

/-- A batch has a first step. -/
theorem exists_batch (r : Run P) : ∃ n, max r.config.batchSteps 1 = n + 1 :=
  Nat.exists_eq_succ_of_ne_zero (by omega)

theorem resume_of_last (h : (step library).apply r = (.ok false, r')) :
    (resume library).apply r = (.ok .finished, r') := by
  obtain ⟨n, hn⟩ := exists_batch r
  unfold resume
  rw [Edit.apply_bind_of_ok (Edit.apply_get r), hn, runSteps, Edit.apply_bind_of_ok h]
  rfl

theorem resume_of_error (h : (step library).apply r = (.error e, r')) :
    (resume library).apply r = (.error e, r') := by
  obtain ⟨n, hn⟩ := exists_batch r
  unfold resume
  rw [Edit.apply_bind_of_ok (Edit.apply_get r), hn, runSteps, Edit.apply_bind_of_error h]

/-- An execution of a run that has stopped, or is about to, is its first batch. -/
theorem execute_eq (hrunning : r.phase ≠ .running) (hhook : r.phase ≠ .hook) (hstart : r.start = r)
    {result : Except EngineError RunState} (h : (resume library).apply r = (result, r'))
    (hresult : result ≠ .ok .yielded) (rounds : Nat) :
    (execute library (rounds + 1)).apply r = (result, r') := by
  rw [apply_execute, if_neg (by simp [hrunning, hhook]), hstart, runBatches]
  cases result with
  | error e => exact Edit.apply_bind_of_error h _
  | ok state =>
      rw [Edit.apply_bind_of_ok h]
      cases state with
      | finished => rfl
      | yielded => exact absurd rfl hresult

/-- Whichever way it is driven, the run answers so and stays as it is. -/
structure Unmoved (library : Library P) (r : Run P) (step : Except EngineError Bool)
    (driven : Except EngineError RunState) : Prop where
  step : (Run.step library).apply r = (step, r)
  resume : (Run.resume library).apply r = (driven, r)
  execute : ∀ rounds, (Run.execute library (rounds + 1)).apply r = (driven, r)

theorem unmoved_of_finished (h : r.phase = .finished) (library : Library P) :
    r.Unmoved library (.ok false) (.ok .finished) := by
  have hstep : (step library).apply r = (.ok false, r) := by rw [step, Edit.apply_mk, h]
  exact ⟨hstep, resume_of_last hstep, execute_eq (by simp [h]) (by simp [h]) (by simp [start, h])
    (resume_of_last hstep) (by simp)⟩

theorem unmoved_of_aborted (h : r.phase = .aborted) (library : Library P) :
    r.Unmoved library (.error .runAborted) (.error .runAborted) := by
  have hstep : (step library).apply r = (.error .runAborted, r) := by rw [step, Edit.apply_mk, h]
  exact ⟨hstep, resume_of_error hstep, execute_eq (by simp [h]) (by simp [h]) (by simp [start, h])
    (resume_of_error hstep) (by simp)⟩

theorem unmoved_of_within (h : r.phase = .running ∨ r.phase = .hook) (library : Library P) :
    r.Unmoved library (.error .stepInProgress) (.error .stepInProgress) := by
  have hstep : (step library).apply r = (.error .stepInProgress, r) := by
    rw [step, Edit.apply_mk]
    rcases h with h | h <;> rw [h]
  refine ⟨hstep, resume_of_error hstep, fun rounds => ?_⟩
  rw [apply_execute, if_pos h]

/-! ### What a phase allows -/

/-- What the phase of a run says about what it can be asked for. -/
structure Disciplined (library : Library P) (r : Run P) : Prop where
  /-- Unless a program is at work, nothing can be asked for that is for programs only. -/
  schedule : r.phase ≠ .running → ∀ drive job,
    answer drive _ (.schedule job) r = (.error (.notStepping .schedule), r)
  scheduleHook : r.phase ≠ .running → ∀ drive job,
    answer drive _ (.scheduleHook job) r = (.error (.notStepping .scheduleHook), r)
  requestRepeat : r.phase ≠ .running → ∀ drive,
    answer drive _ .requestRepeat r = (.error (.notStepping .requestRepeat), r)
  setName : r.phase ≠ .running → ∀ drive name,
    answer drive _ (.setName name) r = (.error (.notStepping .setName), r)
  /-- From inside a step the run cannot be driven. -/
  within : r.phase = .running ∨ r.phase = .hook →
    r.Unmoved library (.error .stepInProgress) (.error .stepInProgress)
  finished : r.phase = .finished → r.Unmoved library (.ok false) (.ok .finished)
  aborted : r.phase = .aborted → r.Unmoved library (.error .runAborted) (.error .runAborted)
  /-- Whatever is asked of a run that is over, only scratch data and notes come to it. -/
  ended : r.phase = .finished ∨ r.phase = .aborted → ∀ {α : Type} (script : Script P α),
    ∃ scratch notes, ((command library script).apply r).2 = { r with scratch, notes }

/-- A request from outside leaves a run that is over as it is, scratch data and notes apart. -/
theorem answer_of_over (h : r.phase = .finished ∨ r.phase = .aborted) (request : Request P β) :
    ∃ scratch notes, (answer (.outside library) β request r).2 = { r with scratch, notes } := by
  have hidle : r.phase ≠ .idle := by rcases h with h | h <;> simp [h]
  have hrunning : r.phase ≠ .running := by rcases h with h | h <;> simp [h]
  have hhook : r.phase ≠ .hook := by rcases h with h | h <;> simp [h]
  have hstart : r.start = r := by simp [start, hidle]
  have hstay : ∀ {γ : Type} {e : Edit (Run P) γ}, Stepwise library e r →
      ∃ scratch notes, (e.apply r).2 = { r with scratch, notes } := by
    rintro γ e ⟨count, hrun, -⟩
    exact ⟨r.scratch, r.notes, by rw [hrun, stepped_of_ne_idle hidle]⟩
  have haside : ∃ scratch notes, (answer .refused β request r).2 = { r with scratch, notes } := by
    rcases answer_aside hrunning hhook request with heq | hother
    · exact ⟨r.scratch, r.notes, heq.trans hstart⟩
    · exact hother
  cases request with
  | step => exact hstay .step
  | resume => exact hstay .resume
  | execute rounds => exact hstay (.execute ⟨hrunning, hhook, hstart⟩ rounds)
  | schedule => exact haside
  | scheduleHook => exact haside
  | requestRepeat => exact haside
  | setName => exact haside
  | readSnapshot => exact haside
  | editSnapshot => exact haside
  | editParts => exact haside
  | editScratch => exact haside
  | inspect => exact haside
  | note => exact haside
  | start => exact haside

theorem command_of_over (h : r.phase = .finished ∨ r.phase = .aborted) (script : Script P α) :
    ∃ scratch notes, ((command library script).apply r).2 = { r with scratch, notes } := by
  refine (Action.meets_perform (answer (.outside library)) script.run r).holds
    (fun r' => ∃ scratch notes, r' = { r with scratch, notes }) ?_ ⟨r.scratch, r.notes, rfl⟩
  rintro β request _ ⟨scratch, notes, rfl⟩
  obtain ⟨scratch', notes', heq⟩ := answer_of_over (r := { r with scratch, notes }) h request
  exact ⟨scratch', notes', heq⟩

theorem disciplined (library : Library P) (r : Run P) : r.Disciplined library where
  schedule h _ job := schedule_of_ne h job
  scheduleHook h _ _ := changeCurrent_of_ne h .scheduleHook _
  requestRepeat h _ := changeCurrent_of_ne h .requestRepeat _
  setName h _ _ := changeCurrent_of_ne h .setName _
  within h := unmoved_of_within h library
  finished h := unmoved_of_finished h library
  aborted h := unmoved_of_aborted h library
  ended h _ script := command_of_over h script

/-- What a program at work asks for on behalf of its step is granted. -/
structure Grants (r : Run P) : Prop where
  schedule : ∀ job, ∃ child, (answer .refused _ (.schedule job) r).1 = .ok child
  scheduleHook : ∀ job, (answer .refused _ (.scheduleHook job) r).1 = .ok ()
  requestRepeat : (answer .refused _ .requestRepeat r).1 = .ok ()
  setName : ∀ name, (answer .refused _ (.setName name) r).1 = .ok ()

theorem AtWork.grants {done : List NodeId} {rest : List (Job P)} {w : Work P}
    (h : r.AtWork done rest w) : r.Grants := by
  have hchange : ∀ operation g, ((changeCurrent operation g).apply r).1 = .ok () :=
    fun operation g => by rw [h.changeCurrent_eq_ok]
  refine ⟨fun job => ?_, fun _ => hchange _ _, hchange _ _, fun _ => hchange _ _⟩
  obtain ⟨r', heq, -⟩ := h.schedule_eq job
  exact ⟨_, congrArg Prod.fst heq⟩

/-- Inside a step the run answers as it would outside: driving is refused by the run itself. -/
theorem answer_outside (h : r.phase = .running ∨ r.phase = .hook) (request : Request P β) :
    answer (.outside library) β request r = answer .refused β request r := by
  cases request with
  | step => exact (unmoved_of_within h library).step
  | resume => exact (unmoved_of_within h library).resume
  | execute rounds =>
      show (execute library rounds).apply r = _
      rw [apply_execute, if_pos h]
      rfl
  | schedule => rfl
  | scheduleHook => rfl
  | requestRepeat => rfl
  | setName => rfl
  | readSnapshot => rfl
  | editSnapshot => rfl
  | editParts => rfl
  | editScratch => rfl
  | inspect => rfl
  | note => rfl
  | start => rfl

/-! ### From one step to the next -/

/-- Behind the last of the archived nodes is one that waits, if any does. -/
theorem Stands.isSome_after {done : List NodeId} {jobs : List (Job P)} {state : SnapshotState}
    {id : NodeId} (h : r.Stands (done ++ [id]) jobs state) :
    (r.timeline.after id).isSome = !jobs.isEmpty := by
  obtain ⟨⟨f, ids, hshape, horder, hfront⟩, -, -⟩ := h
  rw [hshape.after_eq (by simpa using horder)]
  cases hfront with
  | next final current queue => rfl
  | last final => rfl

variable {initial : Snapshot} {root : Job P} {config : RunConfig}

/-- How a step ends: it fails and the run is aborted, or it says whether a node is left behind the
one whose step it was, and the run goes on with that or is finished. -/
inductive Ending (r r' : Run P) : Except EngineError Bool → Prop
  | more (next : (r'.timeline.after r.current).isSome = true) (phase : r'.phase = .idle) :
      Ending r r' (.ok true)
  | last (next : r'.timeline.after r.current = none) (phase : r'.phase = .finished) :
      Ending r r' (.ok false)
  | failed (e : EngineError) (phase : r'.phase = .aborted) : Ending r r' (.error e)

theorem Driven.ending (h : Driven library (ofJob initial root config) begun r)
    (hidle : r.phase = .idle) :
    Ending r ((Run.step library).apply r).2 ((Run.step library).apply r).1 := by
  obtain ⟨done, job, rest, state, hbetween⟩ := h.exists_between hidle
  have hstepped := stepped_step hidle library
  rcases hstep : (Run.step library).apply r with ⟨e | more, r'⟩
  · rw [hstep] at hstepped
    cases hstepped with
    | failed _ phase _ => exact .failed e phase
  · obtain ⟨s, w, data, state', hp⟩ := hbetween.exists_passes hstep
    obtain ⟨r₁, hstep', hrows, -, -⟩ := hbetween.advance hp
    obtain ⟨hmore, rfl⟩ := Prod.mk.inj (hstep.symm.trans hstep')
    obtain rfl := Except.ok.inj hmore
    unfold Rows at hrows
    by_cases hlast : w.next ++ rest = []
    · rw [if_pos hlast] at hrows
      have hafter := hrows.stands.isSome_after
      rw [hlast]
      exact .last (by simpa using hafter) hrows.phase
    · rw [if_neg hlast] at hrows
      have hafter := hrows.stands.isSome_after
      rw [List.isEmpty_eq_false_iff.mpr hlast] at hafter ⊢
      exact .more hafter hrows.phase

theorem Stepped.aborted_iff {result : Except EngineError Bool} (h : Stepped r r' result) :
    r'.phase = .aborted ↔ ∃ e, result = .error e := by
  cases h with
  | more phase steps => simp [phase]
  | last phase steps => simp [phase]
  | failed e phase steps => simp [phase]

/-- **A run is aborted exactly if one of its steps failed.** -/
theorem Driven.aborted_iff (h : Driven library (ofJob initial root config) begun r) :
    r.phase = .aborted ↔ ∃ b ∈ begun, ∃ e, ((Run.step library).apply b).1 = .error e := by
  induction h with
  | refl => simp [ofJob]
  | @step begun r h hidle ih =>
      have hnone : ¬∃ b ∈ begun, ∃ e, ((Run.step library).apply b).1 = .error e := by
        rw [← ih, hidle]
        simp
      have hlast : ((Run.step library).apply r).2.phase = .aborted ↔
          ∃ e, ((Run.step library).apply r).1 = .error e := (stepped_step hidle library).aborted_iff
      rw [hlast]
      constructor
      · exact fun hfails => ⟨r, by simp, hfails⟩
      · rintro ⟨b, hb, hfails⟩
        rcases List.mem_append.mp hb with hb | hb
        · exact absurd ⟨b, hb, hfails⟩ hnone
        · rwa [List.mem_singleton.mp hb] at hfails
  | aside h request ih =>
      obtain ⟨scratch, notes, heq⟩ := h.standing.aside_eq request
      rw [heq]
      exact ih

/-- Steps are begun in idle runs only. -/
theorem Driven.idle_of_mem {r₀ : Run P} (h : Driven library r₀ begun r) :
    ∀ b ∈ begun, b.phase = .idle := by
  induction h with
  | refl => simp
  | step h hidle ih =>
      intro b hb
      rcases List.mem_append.mp hb with hb | hb
      · exact ih b hb
      · rw [List.mem_singleton.mp hb]
        exact hidle
  | aside h request ih => exact ih

/-- **The phases are kept.**

At every moment the phase decides what can be asked for.  Within a step it says whether the program
or the hook is at work, the program is granted what it asks for on behalf of its step, and driving
the run is refused by the run itself.  Between the steps a run is idle, finished or aborted: a step
ends as `Ending` says, and a run is aborted exactly if a step that was begun in an idle run
failed. -/
theorem phase_discipline (library : Library P) (initial : Snapshot) (root : Job P)
    (config : RunConfig) :
    (∀ r, Moment library (ofJob initial root config) r → r.Disciplined library) ∧
    (∀ phase r, Within library (ofJob initial root config) phase r →
      r.phase = phase ∧ (phase = .running ∨ phase = .hook) ∧ (phase = .running → r.Grants) ∧
      ∀ (β : Type) (request : Request P β),
        answer (.outside library) β request r = answer .refused β request r) ∧
    ∀ begun r, Driven library (ofJob initial root config) begun r →
      (r.phase = .idle ∨ r.phase = .finished ∨ r.phase = .aborted) ∧
      (r.phase = .idle → Ending r ((step library).apply r).2 ((step library).apply r).1) ∧
      (∀ b ∈ begun, b.phase = .idle) ∧
      (r.phase = .aborted ↔ ∃ b ∈ begun, ∃ e, ((step library).apply b).1 = .error e) := by
  refine ⟨fun r _ => disciplined library r, fun phase r h => ?_, fun begun r h => ?_⟩
  · have hphase := h.phase_eq
    rcases h.layout with ⟨rfl, done, rest, w, hwork⟩ | ⟨rfl, done, jobs, s, hhook⟩
    · exact ⟨hphase, .inl rfl, fun _ => hwork.grants, fun β => answer_outside (.inl hphase)⟩
    · exact ⟨hphase, .inr rfl, fun hc => by simp at hc, fun β => answer_outside (.inr hphase)⟩
  · refine ⟨?_, h.ending, h.idle_of_mem, h.aborted_iff⟩
    cases h.standing with
    | idle visits jobs state runs told between awaited => exact .inl between.phase
    | finished visits data last runs told closed isLast ends => exact .inr (.inl closed.phase)
    | aborted phase => exact .inr (.inr phase)

/-- The first program does not mind that it cannot drive the run; the second one does. -/
def reentering : Nat → Script Nat Unit
  | 0 => do
    let _ ← Script.ask .step
    let _ ← Script.ask (.execute 1)
    Script.schedule 1
  | _ => discard (Script.demand .resume)

theorem phase_discipline_reentering :
    ∃ b r, Driven reentering (ofJob oneSymbol (.named 0) {}) [ofJob oneSymbol (.named 0) {}] b ∧
      b.phase = .idle ∧ ((step reentering).apply b).1 = .error .stepInProgress ∧
      Driven reentering (ofJob oneSymbol (.named 0) {}) [ofJob oneSymbol (.named 0) {}, b] r ∧
      r.phase = .aborted ∧ r.Unmoved reentering (.error .runAborted) (.error .runAborted) := by
  obtain ⟨hmoments, -, hdriven⟩ := phase_discipline reentering oneSymbol (.named 0) {}
  have hstart : Driven reentering (ofJob oneSymbol (.named 0) {}) [] _ := .refl
  have hfirst := hstart.step rfl
  generalize hb : ((step reentering).apply (ofJob oneSymbol (.named 0) {})).2 = b at hfirst
  have hidle : b.phase = .idle := by subst hb; decide +kernel
  have hfails : ((step reentering).apply b).1 = .error .stepInProgress := by
    subst hb
    decide +kernel
  have hsecond := hfirst.step hidle
  have haborted := (hdriven _ _ hsecond).2.2.2.mpr ⟨b, by simp, _, hfails⟩
  exact ⟨b, _, hfirst, hidle, hfails, hsecond, haborted,
    (hmoments _ (.between hsecond)).aborted haborted⟩

end Run

end Chronicle
