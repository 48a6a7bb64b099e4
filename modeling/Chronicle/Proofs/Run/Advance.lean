import Chronicle.Proofs.Run.Stages
/-!
One whole step.

`Between` is the invariant of a run between two steps: the archived nodes are the beginning of the
chronological order, as many as steps were counted, and the listener has heard of each of them.
`Closed` is the same of a finished run, in which no node waits any more.

A step goes through five runs, and each has a name: the program of the step begins in the run that
is `opened` and is done in the one `returned`; its state is `handedOn`; a hook begins in the run
`hookOpened`.  `Passes` says that every stage succeeds and what the step comes to.  A run between
two steps advances exactly if its step passes, and then the invariant holds again with one more
archived node (`Between.advance`, `Between.exists_passes`).
-/

namespace Chronicle

variable {P : Type}

/-! ### What a program cannot change of its own step -/

/-- What no request changes in a tally is not changed by an action. -/
theorem Action.tally_keeps {α σ τ : Type} {note : (β : Type) → Request P β → Run P → σ → σ}
    {view : σ → τ} (hkept : ∀ β (request : Request P β) run x, view (note β request run x) = view x)
    (action : Action P α) (run : Run P) (x : σ) : view (action.tally note run x) = view x := by
  induction action generalizing run x with
  | done a => rfl
  | ask request next ih => exact (ih _ _ _).trans (hkept _ request run x)

@[simp] theorem Script.work_job {α : Type} (script : Script P α) (run : Run P) (w : Work P) :
    (script.work run w).job = w.job :=
  Action.tally_keeps (fun _ request _ _ => by cases request <;> rfl) ..

@[simp] theorem Script.work_label {α : Type} (script : Script P α) (run : Run P) (w : Work P) :
    (script.work run w).label = w.label :=
  Action.tally_keeps (fun _ request _ _ => by cases request <;> rfl) ..

theorem Request.work_snapshot {β : Type} (request : Request P β) (run : Run P) (w : Work P) :
    (request.work run w).snapshot = request.change run w.snapshot := by
  cases request <;> rfl

/-- A program makes of the state at work what a hook with the same requests would. -/
theorem Script.work_snapshot {α : Type} (script : Script P α) (run : Run P) (w : Work P) :
    (script.work run w).snapshot = script.change run w.snapshot := by
  unfold Script.work Script.change
  generalize script.run = action
  induction action generalizing run w with
  | done a => rfl
  | ask request next ih =>
      unfold Action.tally
      rw [← request.work_snapshot]
      exact ih _ _ _

namespace Run

variable {library : Library P} {r r' : Run P} {done : List NodeId} {jobs rest : List (Job P)}
  {job : Job P} {state state' : SnapshotState} {w : Work P} {s : Snapshot} {data : SnapshotData}

/-! ### The runs of a step -/

/-- The run in which the program of the current step begins. -/
def opened (r : Run P) : Run P := (openStep.apply r).2

/-- The run in which the program of the current step is done. -/
def returned (library : Library P) (r : Run P) : Run P :=
  ((performCurrent library).apply r.opened).2

/-- The run in which the state of the current step is handed on. -/
def handedOn (library : Library P) (r : Run P) : Run P :=
  ((closeStep r.current).apply (r.returned library)).2

/-- The run in which a hook of the current step begins. -/
def hookOpened (library : Library P) (r : Run P) : Run P := (openHook.apply (r.handedOn library)).2

/-- What the current step comes to, begun on the given snapshot. -/
def workOf (library : Library P) (r : Run P) (job : Job P) (s : Snapshot) : Work P :=
  (job.program library).work r.opened (.begun job r.nextLabel s)

/-- The state that a step leaves to what follows: the data it hands on, or what its hook makes of
them.  At the end of the run this is data again. -/
def handOver (library : Library P) (r : Run P) (hook : Option (Job P)) (last : Bool)
    (data : SnapshotData) : Except EngineError SnapshotState :=
  match hook with
  | none => .ok (.archived data)
  | some job => do
    let s := (job.program library).change (r.hookOpened library) (← data.materialize)
    return if last then .archived s.toData else .live s

theorem handOver_some {hook : Job P} {last : Bool} :
    handOver library r (some hook) last data = .ok state' ↔ ∃ s₀, data.materialize = .ok s₀ ∧
      state' = if last then
          .archived ((hook.program library).change (r.hookOpened library) s₀).toData
        else .live ((hook.program library).change (r.hookOpened library) s₀) := by
  unfold handOver
  cases data.materialize with
  | error e => simp [bind, Except.bind]
  | ok s₀ => simp [bind, Except.bind, pure, Except.pure, eq_comm]

/-- Every stage of the current step succeeds: it begins on `s`, comes to `w`, hands on `data`, and
leaves `state'` to what follows. -/
structure Passes (library : Library P) (r : Run P) (done : List NodeId) (job : Job P)
    (rest : List (Job P)) (state : SnapshotState) (s : Snapshot) (w : Work P) (data : SnapshotData)
    (state' : SnapshotState) : Prop where
  opens : state.opens = .ok s
  work : w = r.workOf library job s
  program : ((performScript .refused (job.program library)).apply r.opened).1 = .ok ()
  closes : w.closes done.isEmpty = .ok data
  hands : handOver library r w.hook (w.next ++ rest).isEmpty data = .ok state'
  hook : ∀ job, w.hook = some job →
    ((performScript .refused (job.program library)).apply (r.hookOpened library)).1 = .ok ()

theorem Stands.opened_eq (h : r.Stands done (job :: rest) state) (hopens : state.opens = .ok s) :
    openStep.apply r = (.ok r.nextLabel, r.opened) ∧
      r.opened.AtWork done rest (.begun job r.nextLabel s) ∧ Keeps done r r.opened := by
  obtain ⟨hwork, hkeeps⟩ := h.begun r.nextLabel s
  rw [opened, h.openStep_eq.1 s hopens]
  exact ⟨rfl, hwork, hkeeps⟩

/-- The second stage is the program of the current node. -/
theorem AtWork.performCurrent_eq (h : r.AtWork done rest w) (library : Library P) :
    (performCurrent library).apply r
      = (performScript .refused (w.job.program library)).apply r := by
  obtain ⟨n, hn, hnode⟩ := h.currentNode_eq
  have hcurrent : (Edit.ofExcept r.currentNode).apply r = (.ok n, r) := by
    rw [Edit.apply_ofExcept, currentNode, Timeline.node_eq_ok.mpr hn]
  have hprogram : n.program = w.job := congrArg Node.program hnode
  unfold performCurrent
  rw [Edit.apply_bind_of_ok (Edit.apply_get _), Edit.apply_bind_of_ok hcurrent, hprogram]

theorem Stands.returned_eq (h : r.Stands done (job :: rest) state) (hopens : state.opens = .ok s)
    (library : Library P) :
    (performCurrent library).apply r.opened
        = (((performScript .refused (job.program library)).apply r.opened).1, r.returned library) ∧
      (r.returned library).AtWork done rest (r.workOf library job s) ∧
      Keeps done r (r.returned library) := by
  obtain ⟨-, hwork, hkeeps⟩ := h.opened_eq hopens
  obtain ⟨hreturned, hkeeps'⟩ := hwork.perform (job.program library)
  have hperform := hwork.performCurrent_eq library
  rw [returned, hperform]
  exact ⟨rfl, hreturned, hkeeps.trans hkeeps'⟩

/-! ### Between two steps -/

/-- The invariant of a run between two steps. -/
structure Between (r : Run P) (done : List NodeId) (jobs : List (Job P)) (state : SnapshotState) :
    Prop where
  phase : r.phase = .idle
  stands : r.Stands done jobs state
  waiting : jobs ≠ []
  steps : r.steps = done.length
  events : r.events = done.map r.timeline.eventOf

/-- What holds of a run that is finished. -/
structure Closed (r : Run P) (done : List NodeId) (state : SnapshotState) : Prop where
  phase : r.phase = .finished
  stands : r.Stands done [] state
  archived : ∃ data, state = .archived data
  steps : r.steps = done.length
  events : r.events = done.map r.timeline.eventOf ++ [.finished]

/-- The run is between two steps or, if no node waits, finished. -/
def Rows (r : Run P) (done : List NodeId) (jobs : List (Job P)) (state : SnapshotState) : Prop :=
  if jobs = [] then r.Closed done state else r.Between done jobs state

/-! ### The stages one after the other -/

theorem Stands.handedOn_eq (h : r.Stands done (job :: rest) state) (hopens : state.opens = .ok s)
    (hcloses : (r.workOf library job s).closes done.isEmpty = .ok data) :
    ∃ n, (closeStep r.current).apply (r.returned library)
        = (.ok (n, !((r.workOf library job s).next ++ rest).isEmpty), r.handedOn library) ∧
      n.unlinked = (r.workOf library job s).node ∧
      (r.handedOn library).Stands (done ++ [r.current]) ((r.workOf library job s).next ++ rest)
        (.archived data) ∧
      (r.handedOn library).phase = .idle ∧ (r.handedOn library).steps = r.steps ∧
      (r.handedOn library).events = r.events ∧
      (∀ q ∈ done, (r.handedOn library).timeline.core? q = r.timeline.core? q) ∧
      (r.handedOn library).timeline.core? r.current = some
        ((r.workOf library job s).node.recorded (r.workOf library job s).snapshot.toData) := by
  obtain ⟨-, hreturned, hkeeps⟩ := h.returned_eq hopens library
  have hclose := hreturned.closeStep_eq
  rw [hcloses, hkeeps.current] at hclose
  obtain ⟨n, r₃, hclose, hn, hstands, hphase, hsteps, hevents, hkept, hcore⟩ := hclose
  have hr₃ : r.handedOn library = r₃ := by rw [handedOn, hclose]
  rw [hr₃]
  refine ⟨n, hclose, hn, hstands, hphase, hsteps.trans hkeeps.steps, hevents.trans hkeeps.events,
    fun q hq => (hkept q hq).trans (hkeeps.past q hq), hcore⟩

/-- A step that cannot be closed hands nothing on. -/
theorem Stands.handedOn_eq_of_error (h : r.Stands done (job :: rest) state)
    (hopens : state.opens = .ok s) {e : EngineError}
    (hcloses : (r.workOf library job s).closes done.isEmpty = .error e) :
    (closeStep r.current).apply (r.returned library) = (.error e, r.handedOn library) ∧
      (r.handedOn library).final = .pending ∧
      (r.handedOn library).timeline.core? r.current = some
        (if (r.workOf library job s).repeats ∧ done.isEmpty
          then { (r.workOf library job s).node with state := .pending }
          else (r.workOf library job s).node.recorded
            (r.workOf library job s).snapshot.toData) := by
  obtain ⟨-, hreturned, hkeeps⟩ := h.returned_eq hopens library
  have hclose := hreturned.closeStep_eq
  rw [hcloses, hkeeps.current] at hclose
  obtain ⟨r₃, hclose, hfinal, hcore⟩ := hclose
  have hr₃ : r.handedOn library = r₃ := by rw [handedOn, hclose]
  rw [hr₃]
  exact ⟨hclose, hfinal, hcore⟩

/-- Whether it is closed or that fails, the step has its record; only of a root that asked to be
repeated the state is gone. -/
theorem Stands.core?_handedOn (h : r.Stands done (job :: rest) state)
    (hopens : state.opens = .ok s) :
    (r.handedOn library).timeline.core? r.current = some
      (if (r.workOf library job s).repeats ∧ done.isEmpty
        then { (r.workOf library job s).node with state := .pending }
        else (r.workOf library job s).node.recorded
          (r.workOf library job s).snapshot.toData) := by
  cases hcloses : (r.workOf library job s).closes done.isEmpty with
  | error e => exact (h.handedOn_eq_of_error hopens hcloses).2.2
  | ok data =>
      obtain ⟨n, -, -, -, -, -, -, -, hcore⟩ := h.handedOn_eq hopens hcloses
      have hrepeats : ¬((r.workOf library job s).repeats ∧ done.isEmpty) := by
        intro hc
        rw [Work.closes, if_pos hc] at hcloses
        cases hcloses
      rw [hcore, if_neg hrepeats]

/-- A hook begins on what was handed on. -/
theorem Stands.hookOpened_eq (h : (r.handedOn library).Stands done jobs (.archived data))
    (hmaterialize : data.materialize = .ok s) :
    openHook.apply (r.handedOn library) = (.ok (), r.hookOpened library) ∧
      (r.hookOpened library).AtHook done jobs s ∧
      Keeps done (r.handedOn library) (r.hookOpened library) := by
  obtain ⟨r₄, hopen, hat, hkeeps⟩ := h.openHook_eq.1 s hmaterialize
  have hr₄ : r.hookOpened library = r₄ := by rw [hookOpened, hopen]
  rw [hr₄]
  exact ⟨hopen, hat, hkeeps⟩

/-- A hook works on the state that was handed on, and leaves it for what follows. -/
theorem Stands.runHook_eq (h : r.Stands done jobs (.archived data)) {hook : Job P}
    (hmaterialize : data.materialize = .ok s)
    (hhook : ((performScript .refused (hook.program library)).apply (openHook.apply r).2).1
      = .ok ()) :
    ∃ r', (runHook library hook).apply r = (.ok (), r') ∧ r'.phase = .idle ∧
      r'.Stands done jobs
        (if jobs = [] then .archived ((hook.program library).change (openHook.apply r).2 s).toData
          else .live ((hook.program library).change (openHook.apply r).2 s)) ∧
      Keeps done r r' := by
  obtain ⟨r₁, hopen, hat, hkeeps₁⟩ := h.openHook_eq.1 s hmaterialize
  rw [hopen] at hhook ⊢
  obtain ⟨hat', hkeeps₂⟩ := hat.perform (hook.program library)
  obtain ⟨r₃, hclose, hphase, hstands, hkeeps₃⟩ := hat'.closeHook_eq
  refine ⟨r₃, ?_, hphase, hstands, (hkeeps₁.trans hkeeps₂).trans hkeeps₃⟩
  unfold runHook
  rw [Edit.apply_bind_of_ok hopen, Edit.apply_bind_of_ok (Prod.ext hhook rfl), hclose]

/-- With a hook or without one, what the step leaves to what follows is what `handOver` says. -/
theorem Stands.hooked_eq (h : (r.handedOn library).Stands done jobs (.archived data))
    (hphase : (r.handedOn library).phase = .idle) {hook : Option (Job P)}
    (hhands : handOver library r hook jobs.isEmpty data = .ok state')
    (hhook : ∀ job, hook = some job →
      ((performScript .refused (job.program library)).apply (r.hookOpened library)).1 = .ok ()) :
    ∃ r', Edit.apply (match hook with
        | some job => runHook library job
        | none => pure ()) (r.handedOn library) = (.ok (), r') ∧
      r'.phase = .idle ∧ r'.Stands done jobs state' ∧ Keeps done (r.handedOn library) r' ∧
      (jobs = [] → ∃ data, state' = .archived data) := by
  cases hook with
  | none =>
      obtain rfl : SnapshotState.archived data = state' := Except.ok.inj hhands
      exact ⟨_, rfl, hphase, h, .refl _ _, fun _ => ⟨_, rfl⟩⟩
  | some job =>
      obtain ⟨s, hmaterialize, rfl⟩ := handOver_some.mp hhands
      obtain ⟨r', hrun, hphase', hstands, hkeeps⟩ := h.runHook_eq hmaterialize (hhook job rfl)
      simp only [List.isEmpty_iff]
      refine ⟨r', hrun, hphase', hstands, hkeeps, fun hjobs => ?_⟩
      rw [if_pos hjobs]
      exact ⟨_, rfl⟩

/-- Counting a step that is done restores the invariant, or finishes the run. -/
theorem Stands.concludeStep_eq (h : r.Stands done jobs state) (hphase : r.phase = .idle)
    (label : Label) (name : String) (hlast : jobs = [] → ∃ data, state = .archived data)
    (hsteps : r.steps + 1 = done.length)
    (hevents : r.events ++ [.step label name] = done.map r.timeline.eventOf) :
    ∃ r', (concludeStep label name !jobs.isEmpty).apply r = (.ok (), r') ∧ r'.Rows done jobs state ∧
      r'.timeline = r.timeline := by
  unfold concludeStep
  rw [Edit.apply_bind_of_ok (Edit.apply_modify _ _)]
  cases jobs with
  | cons job jobs =>
      refine ⟨_, rfl, ?_, rfl⟩
      rw [Rows, if_neg (by simp)]
      exact ⟨hphase, h.congr rfl rfl rfl, by simp, hsteps, hevents⟩
  | nil =>
      obtain ⟨⟨f, ids, hshape, horder, hfront⟩, hpast, hready⟩ := h
      cases hfront with
      | last final =>
          refine ⟨_, rfl, ?_, rfl⟩
          rw [Rows, if_pos rfl]
          refine ⟨rfl, ⟨⟨f, [], hshape, horder, .last final⟩, hpast, hready⟩, hlast rfl, hsteps, ?_⟩
          show r.events ++ [.step label name] ++ [.finished] = _
          rw [hevents]
          rfl

/-! ### One step -/

/-- **A step whose stages succeed restores the invariant, with one more archived node.** -/
theorem Between.advance (h : r.Between done (job :: rest) state)
    (hp : Passes library r done job rest state s w data state') :
    ∃ r', (step library).apply r = (.ok !(w.next ++ rest).isEmpty, r') ∧
      r'.Rows (done ++ [r.current]) (w.next ++ rest) state' ∧
      (∀ q ∈ done, r'.timeline.core? q = r.timeline.core? q) ∧
      r'.timeline.core? r.current = some (w.node.recorded w.snapshot.toData) := by
  obtain ⟨hphase, hstands, -, hsteps, hevents⟩ := h
  obtain ⟨hopens, rfl, hprogram, hcloses, hhands, hhook⟩ := hp
  obtain ⟨hopen, -, -⟩ := hstands.opened_eq hopens
  obtain ⟨hperform, -, -⟩ := hstands.returned_eq hopens library
  obtain ⟨n, hclose, hn, hstands₃, hphase₃, hsteps₃, hevents₃, hkept₃, hcore₃⟩ :=
    hstands.handedOn_eq hopens hcloses
  have hhook' : n.hook = (r.workOf library job s).hook := congrArg Node.hook hn
  have hname : n.name = (r.workOf library job s).name := congrArg Node.name hn
  obtain ⟨r₄, hhooked, hphase₄, hstands₄, hkeeps₄, hlast⟩ :=
    hstands₃.hooked_eq hphase₃ hhands hhook
  rw [← hhook'] at hhooked
  have hkept : ∀ q ∈ done, r₄.timeline.core? q = r.timeline.core? q := fun q hq =>
    (hkeeps₄.past q (by simp [hq])).trans (hkept₃ q hq)
  have hcore : r₄.timeline.core? r.current = some
      ((r.workOf library job s).node.recorded (r.workOf library job s).snapshot.toData) :=
    (hkeeps₄.past _ (by simp)).trans hcore₃
  have hcounted : r₄.steps + 1 = (done ++ [r.current]).length := by
    rw [hkeeps₄.steps, hsteps₃, hsteps, List.length_append, List.length_singleton]
  have hlabel : (r.workOf library job s).label = r.nextLabel := Script.work_label _ _ _
  have hheard : r₄.events ++ [.step r.nextLabel n.name]
      = (done ++ [r.current]).map r₄.timeline.eventOf := by
    rw [hkeeps₄.events, hevents₃, hevents, Timeline.map_eventOf_snoc hkept hcore, hname, ← hlabel]
    rfl
  obtain ⟨r₅, hconclude, hrows, htimeline⟩ :=
    hstands₄.concludeStep_eq hphase₄ r.nextLabel n.name hlast hcounted hheard
  refine ⟨r₅, ?_, hrows, fun q hq => htimeline ▸ hkept q hq, htimeline ▸ hcore⟩
  have hrun : (runCurrent library).apply r
      = (.ok !((r.workOf library job s).next ++ rest).isEmpty, r₅) := by
    unfold runCurrent
    rw [Edit.apply_bind_of_ok (Edit.apply_get _), Edit.apply_bind_of_ok hopen,
      Edit.apply_bind_of_ok (hperform.trans (Prod.ext hprogram rfl)), Edit.apply_bind_of_ok hclose]
    dsimp only
    cases hhookEq : n.hook with
    | none =>
        rw [hhookEq] at hhooked
        dsimp only at hhooked
        rw [Edit.apply_pure] at hhooked
        obtain ⟨-, rfl⟩ := Prod.mk.inj hhooked
        rw [Edit.apply_bind_of_ok hconclude, Edit.apply_pure]
    | some hook =>
        rw [hhookEq] at hhooked
        rw [Edit.apply_bind_of_ok hhooked, Edit.apply_bind_of_ok hconclude, Edit.apply_pure]
  simp only [step, Edit.apply_mk, hphase, hrun]

/-! ### What a stage that succeeds tells -/

/-- A step that is made is all its stages. -/
theorem runCurrent_eq_ok (idle : r.phase = .idle) {more : Bool}
    (hstep : (step library).apply r = (.ok more, r')) :
    (runCurrent library).apply r = (.ok more, r') := by
  simp only [step, Edit.apply_mk, idle] at hstep
  split at hstep
  · simp at hstep
  · exact hstep

theorem Stands.exists_opens (h : r.Stands done (job :: rest) state) {label : Label}
    (hopen : openStep.apply r = (.ok label, r')) : ∃ s, state.opens = .ok s := by
  cases hopens : state.opens with
  | error e =>
      simp [h.openStep_eq.2 e hopens] at hopen
  | ok s => exact ⟨s, rfl⟩

theorem Stands.exists_closes (h : r.Stands done (job :: rest) state) (hopens : state.opens = .ok s)
    {answer : Node (Job P) × Bool}
    (hclose : (closeStep r.current).apply (r.returned library) = (.ok answer, r')) :
    ∃ data, (r.workOf library job s).closes done.isEmpty = .ok data := by
  cases hcloses : (r.workOf library job s).closes done.isEmpty with
  | error e =>
      simp [(h.handedOn_eq_of_error hopens hcloses).1] at hclose
  | ok data => exact ⟨data, rfl⟩

theorem Stands.exists_handOver (h : (r.handedOn library).Stands done jobs (.archived data))
    {hook : Job P} (last : Bool)
    (hrun : (runHook library hook).apply (r.handedOn library) = (.ok (), r')) :
    (∃ state', handOver library r (some hook) last data = .ok state') ∧
      ((performScript .refused (hook.program library)).apply (r.hookOpened library)).1
        = .ok () := by
  unfold runHook at hrun
  obtain ⟨⟨⟩, r₁, hopen, hrun⟩ := Edit.exists_of_apply_bind hrun
  obtain ⟨⟨⟩, r₂, hperform, -⟩ := Edit.exists_of_apply_bind hrun
  have hr₁ : r.hookOpened library = r₁ := by rw [hookOpened, hopen]
  constructor
  · cases hmaterialize : data.materialize with
    | error e =>
        simp [h.openHook_eq.2 e hmaterialize] at hopen
    | ok s₀ => exact ⟨_, handOver_some.mpr ⟨s₀, hmaterialize, rfl⟩⟩
  · rw [hr₁, hperform]

/-- **A step that succeeds does so at every stage.** -/
theorem Between.exists_passes (h : r.Between done (job :: rest) state) {more : Bool}
    (hstep : (step library).apply r = (.ok more, r')) :
    ∃ s w data state', Passes library r done job rest state s w data state' := by
  obtain ⟨hphase, hstands, -, -, -⟩ := h
  have hrun := runCurrent_eq_ok hphase hstep
  unfold runCurrent at hrun
  rw [Edit.apply_bind_of_ok (Edit.apply_get _)] at hrun
  -- Each stage in turn must have succeeded, which settles the next ingredient of `Passes`.
  obtain ⟨label, r₁, hopenRun, hrun⟩ := Edit.exists_of_apply_bind hrun
  obtain ⟨s, hopens⟩ := hstands.exists_opens hopenRun
  obtain rfl : r.opened = r₁ := by rw [opened, hopenRun]
  obtain ⟨⟨⟩, r₂, hperformRun, hrun⟩ := Edit.exists_of_apply_bind hrun
  obtain ⟨hperform, -, -⟩ := hstands.returned_eq hopens library
  rw [hperform] at hperformRun
  obtain ⟨hprogram, rfl⟩ := Prod.mk.inj hperformRun
  obtain ⟨⟨n, more'⟩, r₃, hcloseRun, hrun⟩ := Edit.exists_of_apply_bind hrun
  obtain ⟨data, hcloses⟩ := hstands.exists_closes hopens hcloseRun
  obtain ⟨n', hclose, hn, hstands₃, -⟩ := hstands.handedOn_eq hopens hcloses
  rw [hclose] at hcloseRun
  obtain ⟨hanswer, rfl⟩ := Prod.mk.inj hcloseRun
  obtain ⟨rfl, -⟩ := Prod.mk.inj (Except.ok.inj hanswer)
  have hhook : n'.hook = (r.workOf library job s).hook := congrArg Node.hook hn
  dsimp only at hrun
  cases hhookEq : n'.hook with
  | none =>
      rw [hhookEq] at hhook
      refine ⟨s, _, data, .archived data, hopens, rfl, hprogram, hcloses, ?_, ?_⟩
      · rw [← hhook]
        rfl
      · intro hook hsome
        simp [← hhook] at hsome
  | some hook =>
      rw [hhookEq] at hhook hrun
      obtain ⟨⟨⟩, r₄, hhookRun, -⟩ := Edit.exists_of_apply_bind hrun
      obtain ⟨⟨state', hhands⟩, hperformHook⟩ := hstands₃.exists_handOver
        ((r.workOf library job s).next ++ rest).isEmpty hhookRun
      refine ⟨s, _, data, state', hopens, rfl, hprogram, hcloses, hhook ▸ hhands, ?_⟩
      intro hook' hsome
      rw [← hhook, Option.some.injEq] at hsome
      exact hsome ▸ hperformHook

end Run

end Chronicle
