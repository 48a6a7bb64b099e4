import Chronicle.Proofs.Run.Layout
import Chronicle.Run.Step
/-!
A program at work.

A program is a chain of requests, and what it makes of its step is what its requests amount to,
one after the other.  `Action.tally` takes them in that order, from the answers that the run
really gives.  Two things are tallied: the changes of the state at work (`Request.change`), which
is all that a hook can do, and the whole of what a step comes to (`Request.work`).

`AtWork r done rest w` is the layout of a run in which a program is at work and has come to `w`
so far.  One request leads to what it amounts to (`AtWork.answer`), so a whole program does
(`AtWork.perform`).  `AtHook` says the same of a hook.  Nothing that a program asks for touches
the archived nodes or those that wait behind the step.
-/

namespace Chronicle

/-! ### What requests amount to -/

/-- What a step has come to while its program is at work. -/
structure Work (P : Type) where
  job : Job P
  label : Label
  name : String
  snapshot : Snapshot
  /-- The steps scheduled so far, in order. -/
  scheduled : List (Job P)
  hook : Option (Job P)
  repeats : Bool

namespace Work

variable {P : Type}

/-- A step whose program is about to begin on the snapshot. -/
def begun (job : Job P) (label : Label) (snapshot : Snapshot) : Work P :=
  ⟨job, label, "", snapshot, [], none, false⟩

/-- The node of the step, apart from its links. -/
def node (w : Work P) : Node (Job P) :=
  { Node.scheduled w.job with
    name := w.name
    label := w.label
    hook := w.hook
    repeats := w.repeats
    status := .running
    state := .live w.snapshot }

/-- The steps to follow right after: those it scheduled, then the repetition it asked for. -/
def next (w : Work P) : List (Job P) := w.scheduled ++ if w.repeats then [w.job] else []

end Work

variable {P : Type}

/-- What a request makes of the state at work. -/
def Request.change {β : Type} (request : Request P β) (run : Run P) (s : Snapshot) : Snapshot :=
  match request with
  | .editSnapshot edit => (edit.apply s).2
  | .editParts edit => (edit.apply (s, run.scratch)).2.1
  | _ => s

/-- What a request of a program makes of its step. -/
def Request.work {β : Type} (request : Request P β) (run : Run P) (w : Work P) : Work P :=
  match request with
  | .schedule job => { w with scheduled := w.scheduled ++ [job] }
  | .scheduleHook job => { w with hook := some job }
  | .requestRepeat => { w with repeats := true }
  | .setName name => { w with name }
  | request => { w with snapshot := request.change run w.snapshot }

/-- Take in, one after the other, what the requests of an action amount to in the run. -/
def Action.tally {α σ : Type} (note : (β : Type) → Request P β → Run P → σ → σ) :
    Action P α → Run P → σ → σ
  | .done _, _, x => x
  | .ask request next, run, x =>
    let (answer, run') := Run.answer .refused _ request run
    (next answer).tally note run' (note _ request run x)

/-- What the script makes of the state at work, performed in the run. -/
def Script.change {α : Type} (script : Script P α) (run : Run P) (s : Snapshot) : Snapshot :=
  script.run.tally (fun _ => Request.change) run s

/-- What the script makes of its step, performed in the run. -/
def Script.work {α : Type} (script : Script P α) (run : Run P) (w : Work P) : Work P :=
  script.run.tally (fun _ => Request.work) run w

namespace Run

variable {α β σ : Type} {r : Run P} {done : List NodeId} {jobs : List (Job P)}

/-- What holds of the run and the tally before an action, and is kept by every request, holds
after the action. -/
theorem perform_tally (note : (β : Type) → Request P β → Run P → σ → σ) (holds : Run P → σ → Prop)
    (hkept : ∀ β (request : Request P β) run x, holds run x →
      holds (answer .refused β request run).2 (note β request run x))
    (action : Action P α) (x : σ) (h : holds r x) :
    holds (action.perform (answer .refused) r).2 (action.tally note r x) := by
  induction action generalizing r x with
  | done a => exact h
  | ask request next ih => exact ih _ _ (hkept _ request r x h)

/-- What no request of a program or a hook changes: the archived nodes, and how far the run is. -/
structure Keeps (done : List NodeId) (r r' : Run P) : Prop where
  current : r'.current = r.current
  steps : r'.steps = r.steps
  events : r'.events = r.events
  past : ∀ id ∈ done, r'.timeline.core? id = r.timeline.core? id

theorem Keeps.refl (done : List NodeId) (r : Run P) : Keeps done r r :=
  ⟨rfl, rfl, rfl, fun _ _ => rfl⟩

theorem Keeps.trans {r₁ r₂ r₃ : Run P} (h : Keeps done r₁ r₂) (h' : Keeps done r₂ r₃) :
    Keeps done r₁ r₃ :=
  ⟨h'.current.trans h.current, h'.steps.trans h.steps, h'.events.trans h.events,
    fun id hid => (h'.past id hid).trans (h.past id hid)⟩

/-! ### The layout while a program is at work -/

/-- The layout of a run in which a program is at work on the current step; `rest` are the
programs of the steps that were waiting when it began. -/
structure AtWork (r : Run P) (done : List NodeId) (rest : List (Job P)) (w : Work P) : Prop where
  phase : r.phase = .running
  underway : r.Underway done r.current w.scheduled rest
  current : r.timeline.core? r.current = some w.node

namespace AtWork

variable {rest : List (Job P)} {w : Work P}

theorem congr {r' : Run P} (h : r.AtWork done rest w) (htimeline : r'.timeline = r.timeline)
    (hphase : r'.phase = r.phase) (hfinal : r'.final = r.final)
    (hcurrent : r'.current = r.current) : r'.AtWork done rest w := by
  refine ⟨hphase.trans h.phase, ?_, ?_⟩
  · rw [hcurrent]
    exact h.underway.congr htimeline hfinal
  · rw [htimeline, hcurrent]
    exact h.current

theorem currentNode_eq (h : r.AtWork done rest w) :
    ∃ n, r.timeline.node? r.current = some n ∧ n.unlinked = w.node :=
  Option.map_eq_some_iff.mp h.current

/-- Where the state at work is, and that it can be exchanged there. -/
theorem stateAtWork_eq (h : r.AtWork done rest w) (operation : StepOperation) :
    r.stateAtWork operation = .ok (.node r.current, w.snapshot) := by
  obtain ⟨n, hn, hcore⟩ := h.currentNode_eq
  have hstate : n.state = .live w.snapshot := congrArg Node.state hcore
  simp [stateAtWork, workplace?, h.phase, stateIn, hn, hstate, SnapshotState.live?]

/-- A change of the current node's own data, links apart. -/
theorem modifyCurrent (h : r.AtWork done rest w) {g : Node (Job P) → Node (Job P)} {w' : Work P}
    (hplace : ∀ n, (g n).place = n.place) (hcore : ∀ n, (g n).unlinked = g n.unlinked)
    (hnode : g w.node = w'.node) (hscheduled : w'.scheduled = w.scheduled) :
    (r.modifyNode r.current g).AtWork done rest w' ∧ Keeps done r (r.modifyNode r.current g) := by
  refine ⟨⟨h.phase, ?_, ?_⟩, rfl, rfl, rfl, fun q hq => ?_⟩
  · rw [hscheduled]
    exact h.underway.modify hplace
  · show Timeline.core? _ r.current = _
    rw [show (r.modifyNode r.current g).timeline.core? r.current = _ from
      (Timeline.core?_modify _ _ _ _ g hcore).trans (if_pos rfl), h.current, Option.map_some, hnode]
  · exact Timeline.core?_modify_of_ne _ _ (h.underway.ne hq)

/-- A step is scheduled below the current one. -/
theorem adopt (h : r.AtWork done rest w) (job : Job P) :
    ∃ t', r.timeline.adopt r.current job = .ok (⟨r.timeline.size⟩, t') ∧
      AtWork { r with timeline := t' } done rest { w with scheduled := w.scheduled ++ [job] } ∧
      Keeps done r { r with timeline := t' } := by
  obtain ⟨t', hadopt, hunderway, hkept⟩ := h.underway.adopt job
  refine ⟨t', hadopt, ⟨h.phase, hunderway, ?_⟩, rfl, rfl, rfl, ?_⟩
  · exact (hkept _ List.mem_cons_self).trans h.current
  · exact fun q hq => hkept q (List.mem_cons_of_mem _ hq)

/-! ### One request -/

theorem schedule_eq (h : r.AtWork done rest w) (job : Job P) :
    ∃ r', (Run.schedule job).apply r = (.ok ⟨r.timeline.size⟩, r') ∧
      r'.AtWork done rest { w with scheduled := w.scheduled ++ [job] } ∧ Keeps done r r' := by
  obtain ⟨t', hadopt, hwork, hkeeps⟩ := h.adopt job
  refine ⟨_, ?_, hwork, hkeeps⟩
  rw [Run.schedule, Edit.apply_atomic]
  simp only [requireRunning, h.phase, if_pos, hadopt, bind, Except.bind, pure, Except.pure]

theorem changeCurrent_eq (h : r.AtWork done rest w) (operation : StepOperation)
    (g : Node (Job P) → Node (Job P)) (w' : Work P)
    (hplace : ∀ n, (g n).place = n.place) (hcore : ∀ n, (g n).unlinked = g n.unlinked)
    (hnode : g w.node = w'.node) (hscheduled : w'.scheduled = w.scheduled) :
    ∃ r', (changeCurrent operation g).apply r = (.ok (), r') ∧ r'.AtWork done rest w' ∧
      Keeps done r r' := by
  obtain ⟨n, hn, -⟩ := h.currentNode_eq
  obtain ⟨hwork, hkeeps⟩ := h.modifyCurrent hplace hcore hnode hscheduled
  refine ⟨_, ?_, hwork, hkeeps⟩
  rw [changeCurrent, Edit.apply_atomic]
  simp only [requireRunning, h.phase, if_pos, currentNode, Timeline.node_eq_ok.mpr hn, bind,
    Except.bind, pure, Except.pure]

theorem putState (h : r.AtWork done rest w) (s : Snapshot) :
    (r.putState (.node r.current) (.live s)).AtWork done rest { w with snapshot := s } ∧
      Keeps done r (r.putState (.node r.current) (.live s)) :=
  h.modifyCurrent (fun _ => rfl) (fun _ => rfl) rfl rfl

theorem editSnapshot_eq (h : r.AtWork done rest w) (edit : Edit Snapshot α) :
    ∃ r', (Run.editSnapshot edit).apply r = ((edit.apply w.snapshot).1, r') ∧
      r'.AtWork done rest { w with snapshot := (edit.apply w.snapshot).2 } ∧ Keeps done r r' := by
  obtain ⟨hwork, hkeeps⟩ := h.putState (edit.apply w.snapshot).2
  refine ⟨_, ?_, hwork, hkeeps⟩
  simp [Run.editSnapshot, Edit.apply_mk, h.stateAtWork_eq]

theorem editParts_eq (h : r.AtWork done rest w) (edit : Edit (Snapshot × Scratch) α) :
    ∃ r', (Run.editParts edit).apply r = ((edit.apply (w.snapshot, r.scratch)).1, r') ∧
      r'.AtWork done rest { w with snapshot := (edit.apply (w.snapshot, r.scratch)).2.1 } ∧
      Keeps done r r' := by
  obtain ⟨hwork, hkeeps⟩ := h.putState (edit.apply (w.snapshot, r.scratch)).2.1
  refine ⟨{ r.putState (.node r.current) (.live (edit.apply (w.snapshot, r.scratch)).2.1) with
    scratch := (edit.apply (w.snapshot, r.scratch)).2.2 }, ?_, hwork.congr rfl rfl rfl rfl,
    hkeeps.current, hkeeps.steps, hkeeps.events, hkeeps.past⟩
  simp [Run.editParts, Edit.apply_mk, h.stateAtWork_eq]

/-- A request leads from what the step has come to, to that and what the request amounts to. -/
theorem answer (h : r.AtWork done rest w) (request : Request P β) :
    (Run.answer .refused β request r).2.AtWork done rest (request.work r w) ∧
      Keeps done r (Run.answer .refused β request r).2 := by
  cases request with
  | schedule job =>
      obtain ⟨r', heq, hwork, hkeeps⟩ := h.schedule_eq job
      simp only [Run.answer, heq]
      exact ⟨hwork, hkeeps⟩
  | scheduleHook job =>
      obtain ⟨r', heq, hwork, hkeeps⟩ :=
        h.changeCurrent_eq .scheduleHook ({ · with hook := some job }) { w with hook := some job }
          (fun _ => rfl) (fun _ => rfl) rfl rfl
      simp only [Run.answer, heq]
      exact ⟨hwork, hkeeps⟩
  | requestRepeat =>
      obtain ⟨r', heq, hwork, hkeeps⟩ :=
        h.changeCurrent_eq .requestRepeat ({ · with repeats := true }) { w with repeats := true }
          (fun _ => rfl) (fun _ => rfl) rfl rfl
      simp only [Run.answer, heq]
      exact ⟨hwork, hkeeps⟩
  | setName name =>
      obtain ⟨r', heq, hwork, hkeeps⟩ := h.changeCurrent_eq .setName ({ · with name })
        { w with name } (fun _ => rfl) (fun _ => rfl) rfl rfl
      simp only [Run.answer, heq]
      exact ⟨hwork, hkeeps⟩
  | readSnapshot => exact ⟨h, .refl done r⟩
  | editSnapshot edit =>
      obtain ⟨r', heq, hwork, hkeeps⟩ := h.editSnapshot_eq edit
      simp only [Run.answer, heq]
      exact ⟨hwork, hkeeps⟩
  | editParts edit =>
      obtain ⟨r', heq, hwork, hkeeps⟩ := h.editParts_eq edit
      simp only [Run.answer, heq]
      exact ⟨hwork, hkeeps⟩
  | editScratch change => exact ⟨h.congr rfl rfl rfl rfl, rfl, rfl, rfl, fun _ _ => rfl⟩
  | inspect => exact ⟨h, .refl done r⟩
  | note text => exact ⟨h.congr rfl rfl rfl rfl, rfl, rfl, rfl, fun _ _ => rfl⟩
  | start =>
      have hstart : r.start = r := by simp [Run.start, h.phase]
      simp only [Run.answer, hstart]
      exact ⟨h, .refl done r⟩
  | step => exact ⟨h, .refl done r⟩
  | resume => exact ⟨h, .refl done r⟩
  | execute rounds => exact ⟨h, .refl done r⟩

/-- A whole program leads to what its requests amount to. -/
theorem perform (h : r.AtWork done rest w) (script : Script P α) :
    ((performScript .refused script).apply r).2.AtWork done rest (script.work r w) ∧
      Keeps done r ((performScript .refused script).apply r).2 := by
  refine perform_tally (fun _ => Request.work)
    (fun run w => run.AtWork done rest w ∧ Keeps done r run) ?_ script.run w ⟨h, .refl done r⟩
  intro β request run w hw
  obtain ⟨hwork, hkeeps⟩ := hw
  exact ⟨(hwork.answer request).1, hkeeps.trans (hwork.answer request).2⟩

end AtWork

/-! ### The layout while a hook is at work -/

/-- The layout of a run in which a hook is at work on the state `s` that was handed on. -/
structure AtHook (r : Run P) (done : List NodeId) (jobs : List (Job P)) (s : Snapshot) : Prop where
  phase : r.phase = .hook
  stands : r.Stands done jobs (.live s)

namespace AtHook

variable {s : Snapshot}

/-- A hook works on the state that was handed on, and can exchange it. -/
theorem exists_place (h : r.AtHook done jobs s) :
    ∃ place, (∀ operation, r.stateAtWork operation = .ok (place, s)) ∧
      ∀ next, (r.putState place (.live next)).AtHook done jobs next ∧
        Keeps done r (r.putState place (.live next)) := by
  obtain ⟨place, hplace, hstate, hput⟩ := h.stands.exists_workplace
  refine ⟨place, fun operation => ?_, fun next => ?_⟩
  · simp [stateAtWork, hplace h.phase, hstate, SnapshotState.live?]
  · obtain ⟨hstands, hcurrent, -, hcore⟩ := hput (.live next) (by simp)
    refine ⟨⟨?_, hstands⟩, hcurrent, ?_, ?_, hcore⟩
    · cases place <;> exact h.phase
    · cases place <;> rfl
    · cases place <;> rfl

theorem requireRunning_eq (h : r.AtHook done jobs s) (operation : StepOperation) :
    r.requireRunning operation = .error (.notStepping operation) := by
  simp [requireRunning, h.phase]

theorem changeCurrent_eq (h : r.AtHook done jobs s) (operation : StepOperation)
    (g : Node (Job P) → Node (Job P)) :
    (changeCurrent operation g).apply r = (.error (.notStepping operation), r) := by
  rw [changeCurrent, Edit.apply_atomic]
  simp only [h.requireRunning_eq, bind, Except.bind]

/-- A request of a hook changes the state that was handed on, or nothing. -/
theorem answer (h : r.AtHook done jobs s) (request : Request P β) :
    (Run.answer .refused β request r).2.AtHook done jobs (request.change r s) ∧
      Keeps done r (Run.answer .refused β request r).2 := by
  obtain ⟨place, hwork, hput⟩ := h.exists_place
  cases request with
  | schedule job =>
      have heq : (Run.schedule job).apply r = (.error (.notStepping .schedule), r) := by
        rw [Run.schedule, Edit.apply_atomic]
        simp only [h.requireRunning_eq, bind, Except.bind]
      simp only [Run.answer, heq]
      exact ⟨h, .refl done r⟩
  | scheduleHook job =>
      simp only [Run.answer, h.changeCurrent_eq]
      exact ⟨h, .refl done r⟩
  | requestRepeat =>
      simp only [Run.answer, h.changeCurrent_eq]
      exact ⟨h, .refl done r⟩
  | setName name =>
      simp only [Run.answer, h.changeCurrent_eq]
      exact ⟨h, .refl done r⟩
  | readSnapshot => exact ⟨h, .refl done r⟩
  | editSnapshot edit =>
      have heq : (Run.editSnapshot edit).apply r
          = ((edit.apply s).1, r.putState place (.live (edit.apply s).2)) := by
        simp [Run.editSnapshot, Edit.apply_mk, hwork]
      simp only [Run.answer, heq]
      exact hput _
  | editParts edit =>
      have heq : (Run.editParts edit).apply r = ((edit.apply (s, r.scratch)).1,
          { r.putState place (.live (edit.apply (s, r.scratch)).2.1) with
            scratch := (edit.apply (s, r.scratch)).2.2 }) := by
        simp [Run.editParts, Edit.apply_mk, hwork]
      obtain ⟨⟨hphase, hstands⟩, hkeeps⟩ := hput (edit.apply (s, r.scratch)).2.1
      simp only [Run.answer, heq]
      exact ⟨⟨hphase, hstands.congr rfl rfl rfl⟩, hkeeps.current, hkeeps.steps, hkeeps.events,
        hkeeps.past⟩
  | editScratch change =>
      exact ⟨⟨h.phase, h.stands.congr rfl rfl rfl⟩, rfl, rfl, rfl, fun _ _ => rfl⟩
  | inspect => exact ⟨h, .refl done r⟩
  | note text => exact ⟨⟨h.phase, h.stands.congr rfl rfl rfl⟩, rfl, rfl, rfl, fun _ _ => rfl⟩
  | start =>
      have hstart : r.start = r := by simp [Run.start, h.phase]
      simp only [Run.answer, hstart]
      exact ⟨h, .refl done r⟩
  | step => exact ⟨h, .refl done r⟩
  | resume => exact ⟨h, .refl done r⟩
  | execute rounds => exact ⟨h, .refl done r⟩

/-- A whole hook changes the state that was handed on as its requests do. -/
theorem perform (h : r.AtHook done jobs s) (script : Script P α) :
    ((performScript .refused script).apply r).2.AtHook done jobs (script.change r s) ∧
      Keeps done r ((performScript .refused script).apply r).2 := by
  refine perform_tally (fun _ => Request.change)
    (fun run s => run.AtHook done jobs s ∧ Keeps done r run) ?_ script.run s ⟨h, .refl done r⟩
  intro β request run s hs
  obtain ⟨hhook, hkeeps⟩ := hs
  exact ⟨(hhook.answer request).1, hkeeps.trans (hhook.answer request).2⟩

end AtHook

end Run

end Chronicle
