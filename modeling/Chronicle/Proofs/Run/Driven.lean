import Chronicle.Proofs.Run.Advance
/-!
Driving a run from outside.

From outside a run may get any scripts, in any order (`Reaches`).  All that they can do to it is to
begin its next step, again and again, and to ask for things that have no part in the steps.
`Driven` is that view: it lists the runs in which a step was begun.  Batches and whole executions
are nothing but such steps (`Reaches.driven`).

So an invariant of every run that is reached need only be kept by a step and by what is asked for
aside; `Standing` is the one for the layout.
-/

namespace Chronicle

namespace Run

variable {P : Type} {library : Library P} {r₀ r : Run P}

/-- The runs that scripts from outside lead to. -/
inductive Reaches (library : Library P) (r₀ : Run P) : Run P → Prop
  | refl : Reaches library r₀ r₀
  | command {r : Run P} {α : Type} (h : Reaches library r₀ r) (script : Script P α) :
      Reaches library r₀ ((command library script).apply r).2

/-- The runs that steps and requests aside of them lead to; `begun` are the runs in which the steps
were begun, in order. -/
inductive Driven (library : Library P) (r₀ : Run P) : (begun : List (Run P)) → Run P → Prop
  | refl : Driven library r₀ [] r₀
  | step {begun : List (Run P)} {r : Run P} (h : Driven library r₀ begun r)
      (idle : r.phase = .idle) : Driven library r₀ (begun ++ [r]) ((step library).apply r).2
  | aside {begun : List (Run P)} {r : Run P} {β : Type} (h : Driven library r₀ begun r)
      (request : Request P β) : Driven library r₀ begun (answer .refused β request r).2

/-- A run can be driven on from where it was driven to. -/
theorem Driven.trans {r₁ : Run P} {before begun : List (Run P)} (h : Driven library r₁ before r₀)
    (hnext : Driven library r₀ begun r) : Driven library r₁ (before ++ begun) r := by
  induction hnext with
  | refl => rwa [List.append_nil]
  | step _ idle ih =>
      rw [← List.append_assoc]
      exact ih.step idle
  | aside _ request ih => exact ih.aside request

/-! ### All driving is stepping -/

/-- The run is driven there from `r₀`. -/
def Drivable (library : Library P) (r₀ r : Run P) : Prop := ∃ begun, Driven library r₀ begun r

/-- An edit of the run that only drives it. -/
def Drives {α : Type} (library : Library P) (r₀ : Run P) (e : Edit (Run P) α) : Prop :=
  ∀ r, Drivable library r₀ r → Drivable library r₀ (e.apply r).2

theorem runSteps_succ (library : Library P) (count : Nat) (r : Run P) :
    (runSteps library (count + 1)).apply r = match (step library).apply r with
      | (.ok true, next) => (runSteps library count).apply next
      | (.ok false, next) => (.ok .finished, next)
      | (.error e, next) => (.error e, next) := by
  rw [runSteps, Edit.apply_bind]
  rcases (step library).apply r with ⟨e | more, next⟩
  · rfl
  · cases more <;> rfl

theorem runBatches_succ (library : Library P) (rounds : Nat) (r : Run P) :
    (runBatches library (rounds + 1)).apply r = match (resume library).apply r with
      | (.ok .yielded, next) => (runBatches library rounds).apply next
      | (.ok .finished, next) => (.ok .finished, next)
      | (.error e, next) => (.error e, next) := by
  rw [runBatches, Edit.apply_bind]
  rcases (resume library).apply r with ⟨e | state, next⟩
  · rfl
  · cases state <;> rfl

/-- An execution is refused within a step. -/
theorem apply_execute (library : Library P) (rounds : Nat) (r : Run P) :
    (execute library rounds).apply r = if r.phase = .running ∨ r.phase = .hook
      then (.error .stepInProgress, r) else (runBatches library rounds).apply r.start := by
  unfold execute
  rw [Edit.apply_bind_of_ok (Edit.apply_get r), Edit.apply_bind_of_ok (Edit.apply_get r)]
  split
  · rfl
  · rw [Edit.apply_bind_of_ok (Edit.apply_modify _ _)]

namespace Drives

variable {α β : Type} {e : Edit (Run P) α} {f : α → Edit (Run P) β}

theorem pure (a : α) : Drives library r₀ (pure a) := fun _ h => h

theorem bind (he : Drives library r₀ e) (hf : ∀ a, Drives library r₀ (f a)) :
    Drives library r₀ (e >>= f) := by
  intro r h
  have hnext := he r h
  rw [Edit.apply_bind]
  match hres : e.apply r with
  | (.ok a, next) =>
      rw [hres] at hnext
      exact hf a next hnext
  | (.error err, next) =>
      rw [hres] at hnext
      exact hnext

/-- A step is begun if the run is idle, and otherwise nothing happens. -/
theorem step : Drives library r₀ (step library) := by
  intro r hr
  obtain ⟨begun, h⟩ := hr
  by_cases hidle : r.phase = .idle
  · exact ⟨_, h.step hidle⟩
  · refine ⟨begun, ?_⟩
    have hsame : ((Run.step library).apply r).2 = r := by
      rw [Run.step, Edit.apply_mk]
      cases hphase : r.phase <;> first | exact absurd hphase hidle | rfl
    rw [hsame]
    exact h

theorem runSteps (count : Nat) : Drives library r₀ (runSteps library count) := by
  induction count with
  | zero => exact pure _
  | succ count ih =>
      refine step.bind fun more => ?_
      cases more with
      | true => exact ih
      | false => exact pure _

theorem resume : Drives library r₀ (resume library) :=
  bind (fun _ h => h) fun _ => runSteps _

theorem runBatches (rounds : Nat) : Drives library r₀ (runBatches library rounds) := by
  induction rounds with
  | zero => exact pure _
  | succ rounds ih =>
      refine resume.bind fun state => ?_
      cases state with
      | finished => exact pure _
      | yielded => exact ih

theorem execute (rounds : Nat) : Drives library r₀ (execute library rounds) := by
  have hstart : Drives library r₀ (modify start : Edit (Run P) Unit) := by
    intro r hr
    obtain ⟨begun, h⟩ := hr
    exact ⟨begun, h.aside .start⟩
  refine bind (fun _ h => h) fun r => bind (fun _ h => h) fun _ => ?_
  split
  · exact fun _ h => h
  · exact hstart.bind fun _ => runBatches rounds

end Drives

/-- A request from outside drives the run, or is aside of the steps. -/
theorem Drivable.answer {β : Type} (h : Drivable library r₀ r) (request : Request P β) :
    Drivable library r₀ (answer (.outside library) β request r).2 := by
  have haside : Drivable library r₀ (Run.answer .refused β request r).2 := by
    obtain ⟨begun, h⟩ := h
    exact ⟨begun, h.aside request⟩
  cases request with
  | step => exact Drives.step r h
  | resume => exact Drives.resume r h
  | execute rounds => exact Drives.execute rounds r h
  | schedule => exact haside
  | scheduleHook => exact haside
  | requestRepeat => exact haside
  | setName => exact haside
  | readSnapshot => exact haside
  | editSnapshot => exact haside
  | editParts => exact haside
  | editScratch => exact haside
  | inspect => exact haside
  | note => exact haside
  | start => exact haside

/-- **Whatever is asked of a run from outside, its steps are begun one by one.** -/
theorem Reaches.driven (h : Reaches library r₀ r) : Drivable library r₀ r := by
  induction h with
  | refl => exact ⟨[], .refl⟩
  | @command r α hreach script ih =>
      show Drivable library r₀ (script.run.perform _ r).2
      clear hreach
      generalize script.run = action
      induction action generalizing r with
      | done a => exact ih
      | ask request next ihNext => exact ihNext _ (ih.answer request)

/-! ### The invariant of a driven run -/

/-- What a request aside of the steps makes of a run in which no program is at work. -/
theorem answer_aside {β : Type} (hrunning : r.phase ≠ .running) (hhook : r.phase ≠ .hook)
    (request : Request P β) :
    (answer .refused β request r).2 = r.start ∨
      ∃ scratch notes, (answer .refused β request r).2 = { r with scratch, notes } := by
  have hworkplace : r.workplace? = none := by
    cases hphase : r.phase <;> simp_all [workplace?]
  have hwork : ∀ operation, r.stateAtWork operation = .error (.notStepping operation) := by
    intro operation
    rw [stateAtWork, hworkplace]
  have hrequire : ∀ operation, r.requireRunning operation = .error (.notStepping operation) := by
    intro operation
    rw [requireRunning, if_neg hrunning]
  cases request with
  | start => exact .inl rfl
  | schedule job =>
      refine .inr ⟨r.scratch, r.notes, ?_⟩
      simp only [answer, schedule, Edit.apply_atomic, hrequire, bind, Except.bind]
  | scheduleHook job =>
      refine .inr ⟨r.scratch, r.notes, ?_⟩
      simp only [answer, changeCurrent, Edit.apply_atomic, hrequire, bind, Except.bind]
  | requestRepeat =>
      refine .inr ⟨r.scratch, r.notes, ?_⟩
      simp only [answer, changeCurrent, Edit.apply_atomic, hrequire, bind, Except.bind]
  | setName name =>
      refine .inr ⟨r.scratch, r.notes, ?_⟩
      simp only [answer, changeCurrent, Edit.apply_atomic, hrequire, bind, Except.bind]
  | editSnapshot edit =>
      refine .inr ⟨r.scratch, r.notes, ?_⟩
      simp only [answer, Run.editSnapshot, Edit.apply_mk, hwork]
  | editParts edit =>
      refine .inr ⟨r.scratch, r.notes, ?_⟩
      simp only [answer, Run.editParts, Edit.apply_mk, hwork]
  | editScratch change => exact .inr ⟨_, r.notes, rfl⟩
  | note text => exact .inr ⟨r.scratch, _, rfl⟩
  | readSnapshot => exact .inr ⟨r.scratch, r.notes, rfl⟩
  | inspect => exact .inr ⟨r.scratch, r.notes, rfl⟩
  | step => exact .inr ⟨r.scratch, r.notes, rfl⟩
  | resume => exact .inr ⟨r.scratch, r.notes, rfl⟩
  | execute rounds => exact .inr ⟨r.scratch, r.notes, rfl⟩

end Run

end Chronicle
