import Chronicle.Proofs.Run.Execution
import Chronicle.Proofs.Run.Lasting
import Chronicle.Proofs.Run.Plan
import Chronicle.Proofs.Timeline.Level
/-!
Steps whose programs keep something in the scratch data.

The outcome of such a program depends on the scratch data as well as on the state at work.
`Script.Turns` says what a script makes of both, in every run; it is put together from single
requests as `Script.Does` is.  Between the requests, and between the steps, only programs touch the
scratch data, so the run `Carries` them from one step to the next (`Between.turn`).

What is carried along beside them is that the steps are on one level.  That only the root schedules
others is therefore part of the rules: there is no rule for a request to schedule behind it.
-/

namespace Chronicle

variable {P α β : Type}

namespace Run

variable {library : Library P} {r r' : Run P} {d d' : Scratch} {done : List NodeId}
  {rest kids : List (Job P)} {job : Job P} {w : Work P}

/-! ### What is carried along -/

/-- The scratch data of the run, and the level of its steps. -/
structure Carries (r : Run P) (d : Scratch) : Prop where
  scratch : r.scratch = d
  level : r.timeline.Level

theorem carries_ofJob (initial : Snapshot) (root : Job P) (config : RunConfig) :
    (ofJob initial root config).Carries .empty :=
  ⟨rfl, Timeline.level_ofRoot root (.live initial)⟩

namespace Carries

theorem modifyNode (h : r.Carries d) (id : NodeId) {g : Node (Job P) → Node (Job P)}
    (hplace : ∀ n, (g n).place = n.place) : (r.modifyNode id g).Carries d :=
  ⟨h.scratch, h.level.modify id hplace⟩

theorem putState (h : r.Carries d) (place : Workplace) (state : SnapshotState) :
    (r.putState place state).Carries d := by
  cases place with
  | node id => exact h.modifyNode id fun _ => rfl
  | final => exact ⟨h.scratch, h.level⟩

end Carries

/-- Between the programs nothing becomes of it. -/
theorem lasting_carries (d : Scratch) : Lasting fun r : Run P => r.Carries d where
  congr h htimeline hscratch := ⟨hscratch.trans h.scratch, htimeline ▸ h.level⟩
  modifyNode id _ h hplace _ := h.modifyNode id hplace
  duplicate h hdup := ⟨h.scratch, h.level.duplicate hdup⟩

/-! ### Requests that leave the scratch data alone -/

theorem carries_changeCurrent (operation : StepOperation) {g : Node (Job P) → Node (Job P)}
    (hplace : ∀ n, (g n).place = n.place) :
    Edit.Keeps (·.Carries d) (changeCurrent operation g) := by
  refine .atomic fun s a next hs heq => ?_
  obtain ⟨_, -, heq⟩ := exists_of_bind_eq_ok heq
  obtain ⟨_, -, heq⟩ := exists_of_bind_eq_ok heq
  obtain ⟨-, rfl⟩ := Prod.mk.inj (Except.ok.inj heq)
  exact hs.modifyNode _ hplace

theorem carries_editSnapshot (edit : Edit Snapshot α) :
    Edit.Keeps (·.Carries d) (Run.editSnapshot edit : Edit (Run P) α) := by
  intro s hs
  rw [Run.editSnapshot, Edit.apply_mk]
  split
  · exact hs
  · exact hs.putState _ _

/-- A run begins with its root. -/
theorem AtWork.current_eq_root (h : r.AtWork [] rest w) : r.current = Timeline.root := by
  obtain ⟨f, kids, ids, hshape, horder, -⟩ := h.underway.layout
  obtain ⟨below, rfl⟩ := hshape.root
  exact (List.cons.inj horder).1.symm

end Run

/-! ### Scripts -/

/-- Wherever a step behind those of `done` has come to `w` and the run carries `d`, the script
answers `a`, the step comes to `w'`, and the run carries `d'`. -/
def Script.Turns (script : Script P α) (done : List NodeId) (d : Scratch) (w : Work P) (a : α)
    (d' : Scratch) (w' : Work P) : Prop :=
  ∀ (run : Run P) (rest : List (Job P)), run.AtWork done rest w → run.Carries d →
    ∃ next, (Run.performScript .refused script).apply run = (.ok a, next) ∧
      script.work run w = w' ∧ next.Carries d'

/-- Wherever a step behind those of `done` has come to `w` and the run carries `d`, the script
fails. -/
def Script.Fails (script : Script P α) (done : List NodeId) (d : Scratch) (w : Work P)
    (e : EngineError) : Prop :=
  ∀ (run : Run P) (rest : List (Job P)), run.AtWork done rest w → run.Carries d →
    ((Run.performScript .refused script).apply run).1 = .error e

namespace Script

variable {script : Script P α} {f : α → Script P β} {done : List NodeId} {d d' d'' : Scratch}
  {w w' w'' : Work P} {a : α} {b : β} {e : EngineError}

namespace Turns

/-- A script whose outcome depends on the state alone, and that leaves alone what is carried. -/
theorem of_does (h : script.Does w a w')
    (hkeeps : Edit.Keeps (·.Carries d) (Run.performScript .refused script)) :
    script.Turns done d w a d w' := by
  intro run rest hwork hcarries
  obtain ⟨hanswer, hw'⟩ := h run done rest hwork
  exact ⟨_, Prod.ext hanswer rfl, hw', hkeeps run hcarries⟩

theorem pure (a : α) (d : Scratch) (w : Work P) :
    (Pure.pure a : Script P α).Turns done d w a d w :=
  of_does (.pure a w) fun _ h => h

theorem bind (h : script.Turns done d w a d' w') (hnext : (f a).Turns done d' w' b d'' w'') :
    (script >>= f).Turns done d w b d'' w'' := by
  intro run rest hwork hcarries
  obtain ⟨next, happly, hw', hcarries'⟩ := h run rest hwork hcarries
  have hwork' := (hwork.perform script).1
  rw [happly, hw'] at hwork'
  obtain ⟨last, happly', hw'', hcarries''⟩ := hnext next rest hwork' hcarries'
  refine ⟨last, (Script.apply_performScript_bind happly).trans happly', ?_, hcarries''⟩
  rw [Script.work_bind happly, hw', hw'']

theorem setName (name : String) (d : Scratch) (w : Work P) :
    (Script.setName name).Turns done d w () d { w with name } :=
  of_does (.setName name w) fun run h =>
    Run.carries_changeCurrent .setName (g := ({ · with name })) (fun _ => rfl) run h

theorem requestRepeat (d : Scratch) (w : Work P) :
    Script.requestRepeat.Turns done d w () d { w with repeats := true } :=
  of_does (.requestRepeat w) fun run h =>
    Run.carries_changeCurrent .requestRepeat (g := ({ · with repeats := true })) (fun _ => rfl)
      run h

theorem editSnapshot {edit : Edit Snapshot α} {s : Snapshot}
    (h : edit.apply w.snapshot = (.ok a, s)) (d : Scratch) :
    (Script.editSnapshot edit).Turns done d w a d { w with snapshot := s } :=
  of_does (.editSnapshot h) fun run hrun => Run.carries_editSnapshot edit run hrun

theorem readSnapshot (d : Scratch) (w : Work P) :
    Script.readSnapshot.Turns done d w w.snapshot d w := by
  intro run rest hwork hcarries
  refine ⟨run, ?_, rfl, hcarries⟩
  show ((run.stateAtWork .snapshot).map (·.2), run) = _
  rw [hwork.stateAtWork_eq]
  rfl

theorem editScratch (change : Scratch → α × Scratch) (d : Scratch) (w : Work P) :
    (Script.ask (.editScratch change)).Turns done d w (change d).1 (change d).2 w := by
  intro run rest hwork hcarries
  obtain rfl := hcarries.scratch
  exact ⟨{ run with scratch := (change run.scratch).2 }, rfl, rfl, rfl, hcarries.level⟩

theorem editParts {edit : Edit (Snapshot × Scratch) α} {s : Snapshot}
    (h : edit.apply (w.snapshot, d) = (.ok a, (s, d'))) :
    (Script.demand (.editParts edit)).Turns done d w a d' { w with snapshot := s } := by
  intro run rest hwork hcarries
  obtain rfl := hcarries.scratch
  refine ⟨{ run.putState (.node run.current) (.live s) with scratch := d' }, ?_, ?_, rfl,
    (hcarries.putState (.node run.current) (.live s)).level⟩
  · show (Run.editParts edit).apply run = _
    rw [Run.editParts, Edit.apply_mk, hwork.stateAtWork_eq]
    simp only [h]
  · show ({ w with snapshot := (edit.apply (w.snapshot, run.scratch)).2.1 } : Work P) = _
    rw [h]

/-- The root schedules a step; its id differs from run to run, but the rest may ignore it. -/
theorem schedule_bind {job : Job P} {script : Script P β}
    (h : script.Turns [] d { w with scheduled := w.scheduled ++ [job] } b d' w') :
    (Script.demand (.schedule job) >>= fun _ => script).Turns [] d w b d' w' := by
  intro run rest hwork hcarries
  obtain ⟨timeline, hadopt, hwork', -⟩ := hwork.adopt job
  have hcarries' : Run.Carries { run with timeline } d := by
    rw [hwork.current_eq_root] at hadopt
    exact ⟨hcarries.scratch, hcarries.level.adopt hadopt⟩
  have hdemand : (Run.performScript .refused (Script.demand (.schedule job))).apply run
      = (.ok ⟨run.timeline.size⟩, { run with timeline }) := by
    show (Run.schedule job).apply run = _
    rw [Run.schedule, Edit.apply_atomic]
    simp only [Run.requireRunning, hwork.phase, if_pos, hadopt, Bind.bind, Except.bind, Pure.pure,
      Except.pure]
  rw [Script.apply_performScript_bind hdemand, Script.work_bind hdemand]
  exact h _ rest hwork' hcarries'

theorem schedule (program : P) (d : Scratch) (w : Work P) :
    (Script.schedule program).Turns [] d w () d
      { w with scheduled := w.scheduled ++ [.named program] } :=
  schedule_bind (.pure () d _)

end Turns

namespace Fails

/-- Nothing comes after a failure. -/
theorem bind (h : script.Fails done d w e) (f : α → Script P β) :
    (script >>= f).Fails done d w e := by
  intro run rest hwork hcarries
  have hscript : (script.run.perform (Run.answer .refused) run).1 = .error e :=
    h run rest hwork hcarries
  show ((script.run.bind _).perform (Run.answer .refused) run).1 = _
  rw [Action.perform_bind, hscript]
  rfl

theorem editParts {edit : Edit (Snapshot × Scratch) α}
    (h : (edit.apply (w.snapshot, d)).1 = .error e) :
    (Script.demand (.editParts edit)).Fails done d w e := by
  intro run rest hwork hcarries
  obtain rfl := hcarries.scratch
  show ((Run.editParts edit).apply run).1 = _
  rw [Run.editParts, Edit.apply_mk, hwork.stateAtWork_eq]
  exact h

end Fails

end Script

/-- Begun on `s` behind the steps of `done`, in a run that carries `d`, the step of the job
schedules `kids`, asks to be repeated if `again` says so, schedules no hook, and leaves `s'` and
`d'`. -/
def Job.Turns (library : Library P) (job : Job P) (done : List NodeId) (d : Scratch) (s : Snapshot)
    (kids : List (Job P)) (again : Bool) (d' : Scratch) (s' : Snapshot) : Prop :=
  ∀ label, ∃ name, (job.program library).Turns done d (.begun job label s) () d'
    ⟨job, label, name, s', kids, none, again⟩

namespace Run

variable {library : Library P} {r r' : Run P} {d d' : Scratch} {done : List NodeId}
  {rest kids : List (Job P)} {job : Job P} {state : SnapshotState} {s s' : Snapshot}
  {data : SnapshotData} {again : Bool} {e : EngineError}

/-! ### One step -/

/-- A step without a hook carries along what its program left. -/
theorem Passes.carries {w : Work P} {state' : SnapshotState} {more : Bool}
    (hp : Passes library r done job rest state s w data state')
    (h : r.Between done (job :: rest) state) (hhook : w.hook = none)
    (hcarries : (r.returned library).Carries d)
    (hstep : (step library).apply r = (.ok more, r')) : r'.Carries d := by
  obtain ⟨hopens, rfl, hprogram, hcloses, -, -⟩ := hp
  obtain ⟨hopen, -, -⟩ := h.stands.opened_eq hopens
  obtain ⟨hperform, -, -⟩ := h.stands.returned_eq hopens library
  obtain ⟨n, hclose, hn, -⟩ := h.stands.handedOn_eq hopens hcloses
  have hn' : n.hook = none := (congrArg Node.hook hn).trans hhook
  have hhanded := (lasting_carries d).closeStep r.current (r.returned library) hcarries
  rw [hclose] at hhanded
  have hrun := runCurrent_eq_ok h.phase hstep
  unfold runCurrent at hrun
  rw [Edit.apply_bind_of_ok (Edit.apply_get _), Edit.apply_bind_of_ok hopen,
    Edit.apply_bind_of_ok (hperform.trans (Prod.ext hprogram rfl)),
    Edit.apply_bind_of_ok hclose] at hrun
  simp only [hn'] at hrun
  have hconclude (more : Bool) : Edit.Keeps (·.Carries d)
      (concludeStep r.nextLabel n.name more >>= fun _ => pure more : Edit (Run P) Bool) :=
    .bind ((lasting_carries d).stable.concludeStep r.nextLabel n.name more) fun _ => .pure _
  have hend := hconclude (!((r.workOf library job s).next ++ rest).isEmpty) _ hhanded
  rw [hrun] at hend
  exact hend

/-- The program begins with what is carried. -/
theorem Between.opened_carries (h : r.Between done (job :: rest) state) (hcarries : r.Carries d)
    (hopens : state.opens = .ok s) :
    r.opened.AtWork done rest (.begun job r.nextLabel s) ∧ r.opened.Carries d := by
  obtain ⟨hopen, hwork, -⟩ := h.stands.opened_eq hopens
  have hopened := (lasting_carries d).stable.openStep r hcarries
  rw [hopen] at hopened
  exact ⟨hwork, hopened⟩

/-- What the program of a step comes to whose outcome is known. -/
theorem Between.exists_turned (h : r.Between done (job :: rest) state) (hcarries : r.Carries d)
    (hopens : state.opens = .ok s) (hturns : job.Turns library done d s kids again d' s') :
    ∃ name next, (performScript .refused (job.program library)).apply r.opened = (.ok (), next) ∧
      r.workOf library job s = ⟨job, r.nextLabel, name, s', kids, none, again⟩ ∧
      next.Carries d' := by
  obtain ⟨hwork, hopened⟩ := h.opened_carries hcarries hopens
  obtain ⟨name, hscript⟩ := hturns r.nextLabel
  obtain ⟨next, hprogram, hw, hnext⟩ := hscript _ rest hwork hopened
  exact ⟨name, next, hprogram, hw, hnext⟩

/-- **A step whose outcome is known, and what is carried along.** -/
theorem Between.turn (h : r.Between done (job :: rest) state) (hcarries : r.Carries d)
    (hopens : state.opens = .ok s) (hturns : job.Turns library done d s kids again d' s')
    (hrepeats : again = true → done ≠ []) (harchive : s'.archive = .ok data) :
    ∃ r', (step library).apply r
        = (.ok !(Plan.following job kids again rest).isEmpty, r') ∧
      r'.Rows (done ++ [r.current]) (Plan.following job kids again rest) (.archived data) ∧
      r'.Carries d' ∧ (∀ q ∈ done, r'.timeline.core? q = r.timeline.core? q) ∧
      r'.timeline.HasRecord r.current s'.toData := by
  obtain ⟨name, next, hprogram, hw, hnext⟩ := h.exists_turned hcarries hopens hturns
  have hreturned : r.returned library = next := by
    obtain ⟨-, hwork, -⟩ := h.stands.opened_eq hopens
    rw [returned, hwork.performCurrent_eq library]
    exact congrArg Prod.snd hprogram
  have hpasses : Passes library r done job rest state s
      ⟨job, r.nextLabel, name, s', kids, none, again⟩ data (.archived data) :=
    passes_of_program hopens (congrArg Prod.fst hprogram) hw hrepeats harchive
  obtain ⟨r', hstep, hrows, hkept, hcore⟩ := h.advance hpasses
  refine ⟨r', hstep, hrows, ?_, hkept, _, hcore, rfl, rfl⟩
  exact hpasses.carries h rfl (hreturned ▸ hnext) hstep

/-- A step with others to come. -/
theorem Between.turn_more (h : r.Between done (job :: rest) state) (hcarries : r.Carries d)
    (hopens : state.opens = .ok s) (hturns : job.Turns library done d s kids again d' s')
    (hrepeats : again = true → done ≠ []) (harchive : s'.archive = .ok data)
    (hmore : Plan.following job kids again rest ≠ []) :
    ∃ r', (step library).apply r = (.ok true, r') ∧
      r'.Between (done ++ [r.current]) (Plan.following job kids again rest) (.archived data) ∧
      r'.Carries d' ∧ (∀ q ∈ done, r'.timeline.core? q = r.timeline.core? q) ∧
      r'.timeline.HasRecord r.current s'.toData := by
  obtain ⟨r', hstep, hrows, hrest⟩ := h.turn hcarries hopens hturns hrepeats harchive
  rw [Rows, if_neg hmore] at hrows
  rw [List.isEmpty_eq_false_iff.mpr hmore] at hstep
  exact ⟨r', hstep, hrows, hrest⟩

/-- The last step. -/
theorem Between.turn_last (h : r.Between done [job] state) (hcarries : r.Carries d)
    (hopens : state.opens = .ok s) (hturns : job.Turns library done d s [] false d' s')
    (harchive : s'.archive = .ok data) :
    ∃ r', (step library).apply r = (.ok false, r') ∧
      r'.Closed (done ++ [r.current]) (.archived data) ∧ r'.Carries d' ∧
      (∀ q ∈ done, r'.timeline.core? q = r.timeline.core? q) ∧
      r'.timeline.HasRecord r.current s'.toData := by
  obtain ⟨r', hstep, hrows, hrest⟩ := h.turn hcarries hopens hturns (by simp) harchive
  exact ⟨r', hstep, hrows, hrest⟩

/-- A step whose program fails aborts the run. -/
theorem Between.turn_fails (h : r.Between done (job :: rest) state) (hcarries : r.Carries d)
    (hopens : state.opens = .ok s)
    (hfails : ∀ label, (job.program library).Fails done d (.begun job label s) e) :
    ∃ r', (step library).apply r = (.error e, r') ∧ r'.phase = .aborted := by
  obtain ⟨hwork, hopened⟩ := h.opened_carries hcarries hopens
  have hprogram := hfails r.nextLabel _ rest hwork hopened
  exact ⟨_, h.step_eq_of_fails (.program hopens hprogram), rfl⟩

/-- A step fails if the archive refuses what its program makes of the state. -/
theorem Between.turn_refused (h : r.Between done (job :: rest) state) (hcarries : r.Carries d)
    (hopens : state.opens = .ok s) (hturns : job.Turns library done d s kids again d' s')
    (hrepeats : again = true → done ≠ []) (harchive : s'.archive = .error e) :
    ∃ r', (step library).apply r = (.error e, r') := by
  obtain ⟨name, next, hprogram, hw, -⟩ := h.exists_turned hcarries hopens hturns
  exact h.exists_refused hopens (congrArg Prod.fst hprogram) (hw ▸ hrepeats) (hw ▸ harchive)

end Run

end Chronicle
