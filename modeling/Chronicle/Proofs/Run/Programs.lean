import Chronicle.Proofs.Run.Advance
/-!
Programs whose outcome does not depend on the run.

What a program makes of its step may depend on all that its run holds.  Most programs only look at
the state at work, though, and then their outcome can be told from what the step has come to before
(`Script.Does`): the same answer and the same work in every run.  Such programs are put together
from single requests by `Script.Does.bind`.

`Job.Makes` is what the step of a job comes to if nothing was requested before its program began.
-/

namespace Chronicle

variable {P α β : Type}

/-! ### Scripts one after the other -/

theorem Action.tally_bind {σ : Type} (note : (β : Type) → Request P β → Run P → σ → σ)
    (x : Action P α) (f : α → Action P β) (run : Run P) (s : σ) :
    (x.bind f).tally note run s
      = (f (x.perform (Run.answer .refused) run).1).tally note
          (x.perform (Run.answer .refused) run).2 (x.tally note run s) := by
  induction x generalizing run s with
  | done a => rfl
  | ask request next ih => exact ih _ _ _

namespace Script

variable {script : Script P α} {f : α → Script P β} {run next : Run P} {a : α}

/-- What comes after a script that succeeds. -/
theorem apply_performScript_bind
    (h : (Run.performScript .refused script).apply run = (.ok a, next)) :
    (Run.performScript .refused (script >>= f)).apply run
      = (Run.performScript .refused (f a)).apply next := by
  have hperform : script.run.perform (Run.answer .refused) run = (.ok a, next) := h
  show (script.run.bind _).perform _ run = _
  rw [Action.perform_bind, hperform]
  rfl

theorem work_bind (h : (Run.performScript .refused script).apply run = (.ok a, next))
    (w : Work P) : (script >>= f).work run w = (f a).work next (script.work run w) := by
  have hperform : script.run.perform (Run.answer .refused) run = (.ok a, next) := h
  show (script.run.bind _).tally _ run w = _
  rw [Action.tally_bind, hperform]
  rfl

end Script

/-! ### Outcomes -/

/-- Wherever a step has come to `w`, the script answers `a` and the step comes to `w'`. -/
def Script.Does (script : Script P α) (w : Work P) (a : α) (w' : Work P) : Prop :=
  ∀ (run : Run P) (done : List NodeId) (rest : List (Job P)), run.AtWork done rest w →
    ((Run.performScript .refused script).apply run).1 = .ok a ∧ script.work run w = w'

namespace Script.Does

variable {script : Script P α} {f : α → Script P β} {w w' w'' : Work P} {a : α} {b : β}

theorem pure (a : α) (w : Work P) : (Pure.pure a : Script P α).Does w a w :=
  fun _ _ _ _ => ⟨rfl, rfl⟩

theorem bind (h : script.Does w a w') (hnext : (f a).Does w' b w'') :
    (script >>= f).Does w b w'' := by
  intro run done rest hwork
  obtain ⟨hanswer, hw'⟩ := h run done rest hwork
  have hperform := hwork.perform script
  obtain ⟨hanswer', hw''⟩ := hnext _ done rest (hw' ▸ hperform.1)
  have happly : (Run.performScript .refused script).apply run
      = (.ok a, ((Run.performScript .refused script).apply run).2) := Prod.ext hanswer rfl
  rw [Script.apply_performScript_bind happly, Script.work_bind happly, hw']
  exact ⟨hanswer', hw''⟩

theorem setName (name : String) (w : Work P) : (Script.setName name).Does w () { w with name } := by
  intro run done rest hwork
  obtain ⟨run', heq, -⟩ := hwork.changeCurrent_eq .setName ({ · with name }) { w with name }
    (fun _ => rfl) (fun _ => rfl) rfl rfl
  exact ⟨congrArg Prod.fst heq, rfl⟩

theorem requestRepeat (w : Work P) :
    Script.requestRepeat.Does w () { w with repeats := true } := by
  intro run done rest hwork
  obtain ⟨run', heq, -⟩ := hwork.changeCurrent_eq .requestRepeat ({ · with repeats := true })
    { w with repeats := true } (fun _ => rfl) (fun _ => rfl) rfl rfl
  exact ⟨congrArg Prod.fst heq, rfl⟩

theorem editSnapshot {edit : Edit Snapshot α} {s : Snapshot}
    (h : edit.apply w.snapshot = (.ok a, s)) :
    (Script.editSnapshot edit).Does w a { w with snapshot := s } := by
  intro run done rest hwork
  obtain ⟨run', heq, -⟩ := hwork.editSnapshot_eq edit
  refine ⟨?_, ?_⟩
  · show ((Run.editSnapshot edit).apply run).1 = _
    rw [heq, h]
  · show ({ w with snapshot := (edit.apply w.snapshot).2 } : Work P) = _
    rw [h]

/-- The id of the scheduled step differs from run to run, but the rest may ignore it. -/
theorem schedule_bind {job : Job P} {script : Script P β}
    (h : script.Does { w with scheduled := w.scheduled ++ [job] } b w') :
    (Script.demand (.schedule job) >>= fun _ => script).Does w b w' := by
  intro run done rest hwork
  obtain ⟨run', heq, hwork', -⟩ := hwork.schedule_eq job
  have hdemand : (Run.performScript .refused (Script.demand (.schedule job))).apply run
      = (.ok ⟨run.timeline.size⟩, run') := heq
  rw [Script.apply_performScript_bind hdemand, Script.work_bind hdemand]
  exact h run' done rest hwork'

theorem schedule (program : P) (w : Work P) :
    (Script.schedule program).Does w () { w with scheduled := w.scheduled ++ [.named program] } :=
  schedule_bind (.pure () _)

end Script.Does

/-- The step of the job, begun on `s`, schedules `kids`, asks to be repeated if `again` says so,
schedules no hook, and leaves `s'`. -/
def Job.Makes (library : Library P) (job : Job P) (s : Snapshot) (kids : List (Job P))
    (again : Bool) (s' : Snapshot) : Prop :=
  ∀ label, ∃ name, (job.program library).Does (.begun job label s) ()
    ⟨job, label, name, s', kids, none, again⟩

end Chronicle
