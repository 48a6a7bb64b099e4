import Chronicle.Proofs.Edit
import Chronicle.Run.Step
/-!
The settings of a run and its steps.

The settings say how the run is driven, and a step neither reads nor changes them.  Only a program
could do so, by looking at the whole run; one that does not (`Action.IgnoresConfig`) answers the
same whatever the settings are.  An edit of the run with that property is `Indifferent`: under
other settings it gives the same answer and leaves the same run, but for the settings.

The property goes through the parts of an edit, so each stage has it, and so has the whole step.
-/

namespace Chronicle

variable {P α β : Type}

/-! ### Programs that do not look at the settings -/

/-- What follows a request does not depend on the settings that its answer shows. -/
def Request.Blind (request : Request P β) (next : β → Action P α) : Prop :=
  match request, next with
  | .inspect, next => ∀ (run : Run P) (config : RunConfig), next { run with config } = next run
  | _, _ => True

/-- The action does not depend on the settings of the run. -/
def Action.IgnoresConfig : Action P α → Prop
  | .done _ => True
  | .ask request next => request.Blind next ∧ ∀ b, (next b).IgnoresConfig

theorem Action.IgnoresConfig.bind {x : Action P α} {f : α → Action P β} (hx : x.IgnoresConfig)
    (hf : ∀ a, (f a).IgnoresConfig) : (x.bind f).IgnoresConfig := by
  induction x with
  | done a => exact hf a
  | ask request next ih =>
      refine ⟨?_, fun b => ih b (hx.2 b)⟩
      cases request with
      | inspect => exact fun run config => congrArg (Action.bind · f) (hx.1 run config)
      | _ => trivial

namespace Run

/-! ### Edits that do not look at the settings -/

/-- Other settings change nothing but the settings. -/
def Indifferent (e : Edit (Run P) α) : Prop :=
  ∀ (r : Run P) (config : RunConfig),
    e.apply { r with config } = ((e.apply r).1, { (e.apply r).2 with config })

namespace Indifferent

variable {e : Edit (Run P) α} {f : α → Edit (Run P) β}

theorem pure (a : α) : Indifferent (pure a : Edit (Run P) α) := fun _ _ => rfl

theorem throw (err : EngineError) : Indifferent (throw err : Edit (Run P) α) := fun _ _ => rfl

theorem ofExcept (result : Except EngineError α) :
    Indifferent (Edit.ofExcept result : Edit (Run P) α) := fun _ _ => rfl

theorem modify {f : Run P → Run P} (h : ∀ r config, f { r with config } = { f r with config }) :
    Indifferent (modify f : Edit (Run P) Unit) := by
  intro r config
  rw [Edit.apply_modify, Edit.apply_modify, h]

theorem bind (he : Indifferent e) (hf : ∀ a, Indifferent (f a)) : Indifferent (e >>= f) := by
  intro r config
  rw [Edit.apply_bind, Edit.apply_bind, he r config]
  rcases e.apply r with ⟨err | a, next⟩
  · rfl
  · exact hf a next config

/-- What is done with a run that was read does not depend on its settings. -/
theorem get {f : Run P → Edit (Run P) α} (hread : ∀ r config, f { r with config } = f r)
    (h : ∀ r, Indifferent (f r)) : Indifferent (MonadState.get >>= f) := by
  intro r config
  show (f { r with config }).apply { r with config } = _
  rw [hread r config]
  exact h r r config

theorem atomic {f : Run P → Except EngineError (α × Run P)}
    (h : ∀ r config, f { r with config } =
      (f r).map fun answer => (answer.1, { answer.2 with config })) :
    Indifferent (Edit.atomic f) := by
  intro r config
  rw [Edit.apply_atomic, Edit.apply_atomic, h r config]
  rcases f r with e | ⟨a, next⟩ <;> rfl

/-- The settings stay as they are. -/
theorem config_eq (he : Indifferent e) (r : Run P) : (e.apply r).2.config = r.config := by
  have hsame := congrArg (·.2.config) (he r r.config)
  exact hsame

end Indifferent

/-! ### Requests -/

section

variable (r : Run P) (config : RunConfig)

theorem stateAtWork_config (operation : StepOperation) :
    ({ r with config } : Run P).stateAtWork operation = r.stateAtWork operation := rfl

theorem start_config : ({ r with config } : Run P).start = { r.start with config } := by
  simp only [start]
  split <;> rfl

theorem putState_config (place : Workplace) (state : SnapshotState) :
    ({ r with config } : Run P).putState place state = { r.putState place state with config } := by
  cases place <;> rfl

end

theorem indifferent_schedule (job : Job P) : Indifferent (schedule job) := by
  refine .atomic fun r config => ?_
  show (r.requireRunning .schedule >>= fun _ => r.timeline.adopt r.current job >>= _) = _
  cases r.requireRunning .schedule with
  | error e => rfl
  | ok _ =>
      simp only [bind, Except.bind]
      cases r.timeline.adopt r.current job <;> rfl

theorem indifferent_changeCurrent (operation : StepOperation)
    (g : Node (Job P) → Node (Job P)) : Indifferent (changeCurrent operation g) := by
  refine .atomic fun r config => ?_
  show (r.requireRunning operation >>= fun _ => r.currentNode >>= _) = _
  cases r.requireRunning operation with
  | error e => rfl
  | ok _ =>
      simp only [bind, Except.bind]
      cases r.currentNode <;> rfl

theorem indifferent_editSnapshot (edit : Edit Snapshot α) :
    Indifferent (editSnapshot edit : Edit (Run P) α) := by
  intro r config
  simp only [editSnapshot, Edit.apply_mk, stateAtWork_config]
  split
  · rfl
  · rw [putState_config]

theorem indifferent_editParts (edit : Edit (Snapshot × Scratch) α) :
    Indifferent (editParts edit : Edit (Run P) α) := by
  intro r config
  simp only [editParts, Edit.apply_mk, stateAtWork_config]
  split
  · rfl
  · simp only [putState_config]

/-- Under other settings a request leaves the same run, and what follows it is the same. -/
theorem answer_config (request : Request P β) {next : β → Action P α} (hblind : request.Blind next)
    (r : Run P) (config : RunConfig) :
    (answer .refused β request { r with config }).2
        = { (answer .refused β request r).2 with config } ∧
      next (answer .refused β request { r with config }).1
        = next (answer .refused β request r).1 := by
  have hsame : ∀ {γ : Type} {e : Edit (Run P) γ}, Indifferent e →
      ∀ next : Except EngineError γ → Action P α,
      (e.apply { r with config }).2 = { (e.apply r).2 with config } ∧
        next (e.apply { r with config }).1 = next (e.apply r).1 := by
    intro γ e he next
    rw [he r config]
    exact ⟨rfl, rfl⟩
  cases request with
  | schedule job => exact hsame (indifferent_schedule job) next
  | scheduleHook job => exact hsame (indifferent_changeCurrent _ _) next
  | requestRepeat => exact hsame (indifferent_changeCurrent _ _) next
  | setName name => exact hsame (indifferent_changeCurrent _ _) next
  | editSnapshot edit => exact hsame (indifferent_editSnapshot edit) next
  | editParts edit => exact hsame (indifferent_editParts edit) next
  | start => exact ⟨start_config r config, rfl⟩
  | inspect => exact ⟨rfl, hblind r config⟩
  | readSnapshot => exact ⟨rfl, rfl⟩
  | editScratch change => exact ⟨rfl, rfl⟩
  | note text => exact ⟨rfl, rfl⟩
  | step => exact ⟨rfl, rfl⟩
  | resume => exact ⟨rfl, rfl⟩
  | execute rounds => exact ⟨rfl, rfl⟩

theorem indifferent_performScript {script : Script P α} (h : script.run.IgnoresConfig) :
    Indifferent (performScript .refused script) := by
  intro r config
  simp only [performScript, Edit.apply_mk]
  generalize script.run = action at h
  induction action generalizing r with
  | done a => rfl
  | ask request next ih =>
      obtain ⟨hrun, hnext⟩ := answer_config request h.1 r config
      simp only [Action.perform, hrun, hnext]
      exact ih _ _ (h.2 _)

/-! ### The stages of a step -/

theorem indifferent_materializeIn (place : Workplace) :
    Indifferent (materializeIn place : Edit (Run P) (Option Snapshot)) := by
  refine .atomic fun r config => ?_
  have hstate : ({ r with config } : Run P).stateIn place = r.stateIn place := by
    cases place <;> rfl
  rw [hstate]
  cases (r.stateIn place).materialize with
  | error e => rfl
  | ok answer => simp only [bind, Except.bind, putState_config]; rfl

theorem indifferent_setPhase (phase : Phase) : Indifferent (setPhase phase : Edit (Run P) Unit) :=
  .modify fun _ _ => rfl

theorem indifferent_openStep : Indifferent (openStep : Edit (Run P) Label) := by
  unfold openStep
  refine .get (fun _ _ => rfl) fun r => .bind (.atomic fun r' config => ?_) fun label => ?_
  · show (r'.timeline.assignLabel r.current >>= _) = _
    cases r'.timeline.assignLabel r.current <;> rfl
  refine .bind (indifferent_materializeIn _) fun snapshot => ?_
  split
  · exact .throw _
  · exact .bind (.modify fun _ _ => rfl) fun _ =>
      .bind (indifferent_setPhase _) fun _ => .pure _

theorem indifferent_takeState (id : NodeId) :
    Indifferent (takeState id : Edit (Run P) Snapshot) := by
  unfold takeState
  refine .get (fun _ _ => rfl) fun r => .bind (.modify fun _ _ => rfl) fun _ => ?_
  split
  · exact .pure _
  · exact .throw _

theorem indifferent_duplicateNode (id : NodeId) :
    Indifferent (duplicateNode id : Edit (Run P) Unit) := by
  refine .atomic fun r config => ?_
  show (r.timeline.duplicate id >>= _) = _
  cases r.timeline.duplicate id <;> rfl

theorem indifferent_recordAndHandOver (id : NodeId) (live : Snapshot) :
    Indifferent (recordAndHandOver id live : Edit (Run P) Bool) := by
  unfold recordAndHandOver
  refine .bind (.modify fun _ _ => rfl) fun _ => .bind (.ofExcept _) fun handover => ?_
  refine .get (fun _ _ => rfl) fun r => ?_
  split
  · exact .bind (.modify fun _ _ => rfl) fun _ => .pure _
  · exact .bind (.modify fun _ _ => rfl) fun _ => .pure _

theorem indifferent_closeStep (id : NodeId) :
    Indifferent (closeStep id : Edit (Run P) (Node (Job P) × Bool)) := by
  unfold closeStep
  refine .bind (indifferent_setPhase _) fun _ => .get (fun _ _ => rfl) fun r => ?_
  refine .bind (.ofExcept _) fun n => .bind (indifferent_takeState id) fun live => ?_
  have hhand : Indifferent
      (recordAndHandOver id live >>= fun more => pure (n, more) : Edit (Run P) _) :=
    .bind (indifferent_recordAndHandOver id live) fun _ => .pure _
  split
  · exact .bind (indifferent_duplicateNode id) fun _ => hhand
  · exact hhand

theorem indifferent_openHook : Indifferent (openHook : Edit (Run P) Unit) := by
  unfold openHook
  refine .bind (indifferent_setPhase _) fun _ => .get (fun _ _ => rfl) fun r => ?_
  split
  · exact .bind (indifferent_materializeIn _) fun _ => .pure _
  · exact .pure _

theorem indifferent_closeHook : Indifferent (closeHook : Edit (Run P) Unit) := by
  unfold closeHook
  refine .bind (indifferent_setPhase _) fun _ => .modify fun r config => ?_
  cases hfinal : r.final <;> simp only [hfinal]

theorem indifferent_concludeStep (label : Label) (name : String) (more : Bool) :
    Indifferent (concludeStep label name more : Edit (Run P) Unit) := by
  unfold concludeStep
  refine .bind (.modify fun _ _ => rfl) fun _ => ?_
  cases more
  · exact .modify fun _ _ => rfl
  · exact .pure _

section

variable {library : Library P} (hlibrary : ∀ p, (library p).run.IgnoresConfig)

include hlibrary

/-- The jobs that open a run do not look at the settings either. -/
theorem ignoresConfig_program (job : Job P) : (job.program library).run.IgnoresConfig := by
  cases job with
  | named p => exact hlibrary p
  | initialState => exact ⟨trivial, fun _ => trivial⟩
  | opening main =>
      refine ⟨trivial, fun scheduled => ?_⟩
      cases scheduled with
      | error e => exact trivial
      | ok id => exact hlibrary main

theorem indifferent_performCurrent : Indifferent (performCurrent library) := by
  unfold performCurrent
  exact .get (fun _ _ => rfl) fun r => .bind (.ofExcept _) fun n =>
    indifferent_performScript (ignoresConfig_program hlibrary n.program)

theorem indifferent_runHook (hook : Job P) : Indifferent (runHook library hook) := by
  unfold runHook
  exact .bind indifferent_openHook fun _ =>
    .bind (indifferent_performScript (ignoresConfig_program hlibrary hook)) fun _ =>
      indifferent_closeHook

theorem indifferent_runCurrent : Indifferent (runCurrent library) := by
  unfold runCurrent
  refine .get (fun _ _ => rfl) fun r => .bind indifferent_openStep fun label => ?_
  refine .bind (indifferent_performCurrent hlibrary) fun _ => ?_
  refine .bind (indifferent_closeStep _) fun closed => ?_
  have hconclude : Indifferent
      (concludeStep label closed.1.name closed.2 >>= fun _ => pure closed.2 : Edit (Run P) Bool) :=
    .bind (indifferent_concludeStep _ _ _) fun _ => .pure _
  dsimp only
  split
  · next hook _ => exact .bind (indifferent_runHook hlibrary hook) fun _ => hconclude
  · exact hconclude

/-- **A step does not look at the settings.** -/
theorem indifferent_step : Indifferent (step library) := by
  intro r config
  simp only [step, Edit.apply_mk]
  split
  · rfl
  · rfl
  · rfl
  · rfl
  · rw [indifferent_runCurrent hlibrary r config]
    rcases (runCurrent library).apply r with ⟨e | more, next⟩ <;> rfl

end

end Run

end Chronicle
