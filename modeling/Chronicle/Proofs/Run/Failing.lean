import Chronicle.Proofs.Run.Records
/-!
How a step fails.

A step that fails does so at one of its stages: its state does not open, its program fails, it
cannot be closed, the state that was handed on does not open for its hook, or the hook fails.
`Fails` has a case for each of these, with the run that is left; nothing comes after a stage that
fails (`Between.step_eq_of_fails`), and the end of a step cannot fail (`Between.exists_fails`).
-/

namespace Chronicle

namespace Run

variable {P : Type} {library : Library P} {r r' failed : Run P} {done : List NodeId}
  {jobs rest : List (Job P)} {job : Job P} {state : SnapshotState} {e : EngineError}

/-- The step that is begun in `r` fails with the error and leaves the run that is given last. -/
inductive Fails (library : Library P) (r : Run P) (done : List NodeId) (job : Job P)
    (state : SnapshotState) (e : EngineError) : Run P → Prop
  | opening (opens : state.opens = .error e) :
      Fails library r done job state e
        (r.modifyNode r.current ({ · with label := r.nextLabel }))
  | program {s : Snapshot} (opens : state.opens = .ok s)
      (fails : ((performScript .refused (job.program library)).apply r.opened).1 = .error e) :
      Fails library r done job state e (r.returned library)
  | closing {s : Snapshot} (opens : state.opens = .ok s)
      (program : ((performScript .refused (job.program library)).apply r.opened).1 = .ok ())
      (closes : (r.workOf library job s).closes done.isEmpty = .error e) :
      Fails library r done job state e (r.handedOn library)
  | hookOpening {s : Snapshot} {data : SnapshotData} {hook : Job P} (opens : state.opens = .ok s)
      (program : ((performScript .refused (job.program library)).apply r.opened).1 = .ok ())
      (closes : (r.workOf library job s).closes done.isEmpty = .ok data)
      (scheduled : (r.workOf library job s).hook = some hook)
      (materialize : data.materialize = .error e) :
      Fails library r done job state e { r.handedOn library with phase := .hook }
  | hook {s s₀ : Snapshot} {data : SnapshotData} {hook : Job P} (opens : state.opens = .ok s)
      (program : ((performScript .refused (job.program library)).apply r.opened).1 = .ok ())
      (closes : (r.workOf library job s).closes done.isEmpty = .ok data)
      (scheduled : (r.workOf library job s).hook = some hook)
      (materialize : data.materialize = .ok s₀)
      (fails : ((performScript .refused (hook.program library)).apply
        (r.hookOpened library)).1 = .error e) :
      Fails library r done job state e
        ((performScript .refused (hook.program library)).apply (r.hookOpened library)).2

/-- The end of a step cannot fail. -/
theorem endStep_ne_error (label : Label) (name : String) (more : Bool) (r : Run P) :
    ((endStep label name more).apply r).1 ≠ .error e := by
  rw [show ((endStep label name more).apply r).1 = .ok more by cases more <;> rfl]
  simp

/-- A hook fails before it begins, or itself; closing it cannot fail. -/
theorem Stands.runHook_eq_error {data : SnapshotData} {hook : Job P}
    (h : r.Stands done jobs (.archived data))
    (hrun : (runHook library hook).apply r = (.error e, r')) :
    (data.materialize = .error e ∧ r' = { r with phase := .hook }) ∨
      (∃ s₀, data.materialize = .ok s₀) ∧
        (performScript .refused (hook.program library)).apply (openHook.apply r).2
          = (.error e, r') := by
  unfold runHook at hrun
  cases hmaterialize : data.materialize with
  | error e' =>
      rw [Edit.apply_bind_of_error (h.openHook_eq.2 e' hmaterialize)] at hrun
      obtain ⟨herror, rfl⟩ := Prod.mk.inj hrun
      exact .inl ⟨congrArg _ (Except.error.inj herror), rfl⟩
  | ok s₀ =>
      obtain ⟨hooked, hopen, -⟩ := h.openHook_eq.1 s₀ hmaterialize
      rw [Edit.apply_bind_of_ok hopen] at hrun
      refine .inr ⟨⟨s₀, rfl⟩, ?_⟩
      rw [hopen]
      rcases hperform : (performScript .refused (hook.program library)).apply hooked with
        ⟨e' | ⟨⟨⟩⟩, performed⟩
      · rwa [Edit.apply_bind_of_error hperform] at hrun
      · rw [Edit.apply_bind_of_ok hperform] at hrun
        simp [closeHook, setPhase, Edit.apply_bind] at hrun

/-- What comes after a step is closed fails only by its hook. -/
theorem exists_hook_of_conclude_error {label : Label} {n : Node (Job P)} {more : Bool}
    (hrun : (conclude library label n more).apply r = (.error e, r')) :
    ∃ hook, n.hook = some hook ∧ (runHook library hook).apply r = (.error e, r') := by
  unfold conclude at hrun
  cases hsome : n.hook with
  | none =>
      rw [hsome] at hrun
      exact absurd (congrArg Prod.fst hrun) (endStep_ne_error _ _ _ _)
  | some hook =>
      refine ⟨hook, rfl, ?_⟩
      rw [hsome] at hrun
      rcases hhooked : (runHook library hook).apply r with ⟨e' | ⟨⟨⟩⟩, hooked⟩
      · rw [Edit.apply_bind_of_error hhooked] at hrun
        obtain ⟨herror, rfl⟩ := Prod.mk.inj hrun
        obtain rfl := Except.error.inj herror
        rfl
      · rw [Edit.apply_bind_of_ok hhooked] at hrun
        exact absurd (congrArg Prod.fst hrun) (endStep_ne_error _ _ _ _)

/-- **A step that fails does so at one of its stages.** -/
theorem Between.exists_fails (h : r.Between done (job :: rest) state)
    (hstep : (step library).apply r = (.error e, r')) :
    ∃ failed, Fails library r done job state e failed ∧ r' = { failed with phase := .aborted } := by
  obtain ⟨hphase, hstands, -, -, -⟩ := h
  have hrun : ∃ failed, (runCurrent library).apply r = (.error e, failed) ∧
      r' = { failed with phase := .aborted } := by
    rw [step, Edit.apply_mk, hphase] at hstep
    rcases hres : (runCurrent library).apply r with ⟨e' | more, failed⟩
    · simp only [hres] at hstep
      obtain ⟨herror, rfl⟩ := Prod.mk.inj hstep
      exact ⟨failed, congrArg (·, failed) herror, rfl⟩
    · simp [hres] at hstep
  obtain ⟨failed, hrun, rfl⟩ := hrun
  refine ⟨failed, ?_, rfl⟩
  rw [runCurrent_eq, Edit.apply_bind_of_ok (Edit.apply_get r)] at hrun
  -- One stage after the other: what fails in it, or what it leaves to the next.
  cases hopens : state.opens with
  | error e' =>
      rw [Edit.apply_bind_of_error (hstands.openStep_eq.2 e' hopens)] at hrun
      obtain ⟨herror, rfl⟩ := Prod.mk.inj hrun
      obtain rfl := Except.error.inj herror
      exact .opening hopens
  | ok s =>
      obtain ⟨hopen, -, -⟩ := hstands.opened_eq hopens
      obtain ⟨hperform, -, -⟩ := hstands.returned_eq hopens library
      rw [Edit.apply_bind_of_ok hopen] at hrun
      rcases hprogram : ((performScript .refused (job.program library)).apply r.opened).1 with
        e' | ⟨⟨⟩⟩
      · rw [hprogram] at hperform
        rw [Edit.apply_bind_of_error hperform] at hrun
        obtain ⟨herror, rfl⟩ := Prod.mk.inj hrun
        obtain rfl := Except.error.inj herror
        exact .program hopens hprogram
      · rw [hprogram] at hperform
        rw [Edit.apply_bind_of_ok hperform] at hrun
        cases hcloses : (r.workOf library job s).closes done.isEmpty with
        | error e' =>
            obtain ⟨hclose, -, -⟩ := hstands.handedOn_eq_of_error hopens hcloses
            rw [Edit.apply_bind_of_error hclose] at hrun
            obtain ⟨herror, rfl⟩ := Prod.mk.inj hrun
            obtain rfl := Except.error.inj herror
            exact .closing hopens hprogram hcloses
        | ok data =>
            obtain ⟨n, hclose, hn, hstands', -⟩ := hstands.handedOn_eq hopens hcloses
            rw [Edit.apply_bind_of_ok hclose] at hrun
            obtain ⟨hook, hsome, hrun⟩ := exists_hook_of_conclude_error hrun
            have hscheduled : (r.workOf library job s).hook = some hook :=
              (congrArg Node.hook hn).symm.trans hsome
            rcases hstands'.runHook_eq_error hrun with
              ⟨hmaterialize, rfl⟩ | ⟨⟨s₀, hmaterialize⟩, hfails⟩
            · exact .hookOpening hopens hprogram hcloses hscheduled hmaterialize
            · obtain rfl : _ = failed := congrArg Prod.snd hfails
              exact .hook hopens hprogram hcloses hscheduled hmaterialize
                (congrArg Prod.fst hfails)

/-- With its state handed on, a step goes on with its hook. -/
theorem Stands.exists_runCurrent_eq (h : r.Stands done (job :: rest) state) {s : Snapshot}
    {data : SnapshotData} {hook : Job P} (hopens : state.opens = .ok s)
    (hprogram : ((performScript .refused (job.program library)).apply r.opened).1 = .ok ())
    (hcloses : (r.workOf library job s).closes done.isEmpty = .ok data)
    (hscheduled : (r.workOf library job s).hook = some hook) :
    ∃ jobs name more, (r.handedOn library).Stands (done ++ [r.current]) jobs (.archived data) ∧
      (runCurrent library).apply r = (do
        openHook
        performScript .refused (hook.program library)
        closeHook
        endStep r.nextLabel name more).apply (r.handedOn library) := by
  obtain ⟨hopen, -, -⟩ := h.opened_eq hopens
  obtain ⟨hperform, -, -⟩ := h.returned_eq hopens library
  obtain ⟨n, hclose, hn, hstands, -⟩ := h.handedOn_eq hopens hcloses
  have hhook : n.hook = some hook := (congrArg Node.hook hn).trans hscheduled
  rw [hprogram] at hperform
  refine ⟨(r.workOf library job s).next ++ rest, n.name,
    !((r.workOf library job s).next ++ rest).isEmpty, hstands, ?_⟩
  rw [runCurrent_eq, Edit.apply_bind_of_ok (Edit.apply_get r), Edit.apply_bind_of_ok hopen,
    Edit.apply_bind_of_ok hperform, Edit.apply_bind_of_ok hclose]
  dsimp only
  rw [conclude_some hhook]

/-- **Where a stage fails, the step does.** -/
theorem Between.step_eq_of_fails (h : r.Between done (job :: rest) state)
    (hfails : Fails library r done job state e failed) :
    (step library).apply r = (.error e, { failed with phase := .aborted }) := by
  have hstands := h.stands
  suffices hrun : (runCurrent library).apply r = (.error e, failed) by
    simp only [step, Edit.apply_mk, h.phase, hrun]
  have hopened {s : Snapshot} (hopens : state.opens = .ok s) := (hstands.opened_eq hopens).1
  have hperformed {s : Snapshot} (hopens : state.opens = .ok s) {result : Except EngineError Unit}
      (hprogram : ((performScript .refused (job.program library)).apply r.opened).1 = result) :
      (performCurrent library).apply r.opened = (result, r.returned library) := by
    rw [(hstands.returned_eq hopens library).1, hprogram]
  cases hfails with
  | opening hopens =>
      rw [runCurrent_eq, Edit.apply_bind_of_ok (Edit.apply_get r)]
      exact Edit.apply_bind_of_error (hstands.openStep_eq.2 e hopens) _
  | program hopens hprogram =>
      rw [runCurrent_eq, Edit.apply_bind_of_ok (Edit.apply_get r),
        Edit.apply_bind_of_ok (hopened hopens)]
      exact Edit.apply_bind_of_error (hperformed hopens hprogram) _
  | closing hopens hprogram hcloses =>
      obtain ⟨hclose, -, -⟩ := hstands.handedOn_eq_of_error hopens hcloses
      rw [runCurrent_eq, Edit.apply_bind_of_ok (Edit.apply_get r),
        Edit.apply_bind_of_ok (hopened hopens), Edit.apply_bind_of_ok (hperformed hopens hprogram)]
      exact Edit.apply_bind_of_error hclose _
  | hookOpening hopens hprogram hcloses hscheduled hmaterialize =>
      obtain ⟨jobs, name, more, hstands', hrun⟩ :=
        hstands.exists_runCurrent_eq hopens hprogram hcloses hscheduled
      rw [hrun]
      exact Edit.apply_bind_of_error (hstands'.openHook_eq.2 e hmaterialize) _
  | hook hopens hprogram hcloses hscheduled hmaterialize hfailing =>
      obtain ⟨jobs, name, more, hstands', hrun⟩ :=
        hstands.exists_runCurrent_eq hopens hprogram hcloses hscheduled
      obtain ⟨hopen, -, -⟩ := hstands'.hookOpened_eq hmaterialize
      rw [hrun, Edit.apply_bind_of_ok hopen]
      exact Edit.apply_bind_of_error (Prod.ext hfailing rfl) _

/-- A step fails if the archive refuses what its program leaves. -/
theorem Between.exists_refused (h : r.Between done (job :: rest) state) {s : Snapshot}
    (hopens : state.opens = .ok s)
    (hprogram : ((performScript .refused (job.program library)).apply r.opened).1 = .ok ())
    (hrepeats : (r.workOf library job s).repeats = true → done ≠ [])
    (harchive : (r.workOf library job s).snapshot.archive = .error e) :
    ∃ r', (step library).apply r = (.error e, r') :=
  ⟨_, h.step_eq_of_fails
    (.closing hopens hprogram ((closes_eq_archive hrepeats).trans harchive))⟩

end Run

end Chronicle
