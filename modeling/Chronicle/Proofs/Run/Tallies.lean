import Chronicle.Proofs.Run.Lasting
import Chronicle.Proofs.Run.Within
/-!
Counting what programs are granted.

A `Tally` counts the steps that were scheduled and the repetitions that were asked for, request by
request: only what the run grants is counted, whoever asks for it and whatever becomes of the step.
`stepTally` counts in a single step, and `Tallied` along a run that is driven.

What is counted in a step is what the step comes to (`Stands.agrees`), so the timeline has a node for
the root, one for each step that was scheduled, and one for each step that was done and had asked to be
repeated (`Tallied.size_eq`).
-/

namespace Chronicle

variable {P α β : Type}

/-- What was granted. -/
structure Tally where
  /-- The number of steps that were scheduled. -/
  schedules : Nat
  /-- How often a repetition was asked for. -/
  repeats : Nat
deriving DecidableEq

/-- Count a request if it is granted. -/
def Request.count (request : Request P β) (run : Run P) (x : Tally) : Tally :=
  match request with
  | .schedule job =>
    match (Run.answer .refused _ (.schedule job) run).1 with
    | .ok _ => { x with schedules := x.schedules + 1 }
    | .error _ => x
  | .requestRepeat =>
    match (Run.answer .refused _ .requestRepeat run).1 with
    | .ok _ => { x with repeats := x.repeats + 1 }
    | .error _ => x
  | _ => x

/-- Count what a script is granted, performed in the run. -/
def Script.count (script : Script P α) (run : Run P) (x : Tally) : Tally :=
  script.run.tally (fun _ => Request.count) run x

/-- What the step has come to is what was counted. -/
structure Work.Agrees (w : Work P) (x : Tally) : Prop where
  scheduled : w.scheduled.length = x.schedules
  repeats : w.repeats = decide (0 < x.repeats)

namespace Run

variable {library : Library P} {r r' r₀ : Run P} {done : List NodeId} {job : Job P}
  {rest : List (Job P)} {state : SnapshotState} {s : Snapshot} {w : Work P} {x : Tally}

/-! ### One step -/

/-- Count what the program of the current node is granted. -/
def programTally (library : Library P) (r : Run P) (x : Tally) : Tally :=
  match r.currentNode with
  | .ok n => (n.program.program library).count r x
  | .error _ => x

/-- Count on after a stage, unless it fails. -/
def thenTally (x : Tally) (stage : Edit (Run P) α) (r : Run P) (later : α → Run P → Tally) :
    Tally :=
  match stage.apply r with
  | (.ok a, next) => later a next
  | (.error _, _) => x

/-- Count what a hook is granted. -/
def hookTally (library : Library P) (hook : Option (Job P)) (r : Run P) (x : Tally) : Tally :=
  match hook with
  | none => x
  | some hook => thenTally x openHook r fun _ hooked => (hook.program library).count hooked x

/-- Count what is granted in the step that is made in `r`. -/
def stepTally (library : Library P) (r : Run P) : Tally :=
  thenTally ⟨0, 0⟩ openStep r fun _ opened =>
    let x := programTally library opened ⟨0, 0⟩
    thenTally x (performCurrent library) opened fun _ returned =>
      thenTally x (closeStep r.current) returned fun closed handed =>
        hookTally library closed.1.hook handed x

/-- Only what a program asks for is granted. -/
theorem count_of_ne (h : r.phase ≠ .running) (request : Request P β) (x : Tally) :
    request.count r x = x := by
  cases request with
  | schedule job => simp only [Request.count, answer, schedule_of_ne h]
  | requestRepeat => simp only [Request.count, answer, changeCurrent_of_ne h]
  | scheduleHook => rfl
  | setName => rfl
  | readSnapshot => rfl
  | editSnapshot => rfl
  | editParts => rfl
  | editScratch => rfl
  | inspect => rfl
  | note => rfl
  | start => rfl
  | step => rfl
  | resume => rfl
  | execute => rfl

theorem thenTally_const (x : Tally) (stage : Edit (Run P) α) (r : Run P) :
    thenTally x stage r (fun _ _ => x) = x := by
  unfold thenTally
  split <;> rfl

/-- Nothing is granted to a hook. -/
theorem count_of_hook (h : r.phase = .hook) (script : Script P α) (x : Tally) :
    script.count r x = x := by
  refine (perform_tally (fun _ => Request.count) (fun run y => run.phase = .hook ∧ y = x) ?_
    script.run x ⟨h, rfl⟩).2
  rintro β request run y ⟨hphase, rfl⟩
  have hwrites := answer_writes (r := run) (by simp [hphase]) request
  exact ⟨hwrites.steps_eq.2.trans hphase, count_of_ne (by simp [hphase]) request y⟩

theorem hookTally_eq (library : Library P) (hook : Option (Job P)) (r : Run P) (x : Tally) :
    hookTally library hook r x = x := by
  cases hook with
  | none => rfl
  | some hook =>
      have hstable : Stable fun _ : Run P => True := by constructor <;> intros <;> trivial
      have hopen := @Stable.openHook P (fun _ => True) hstable r trivial
      unfold hookTally thenTally
      rcases hres : (openHook : Edit (Run P) Unit).apply r with ⟨e | a, hooked⟩
      · rfl
      · rw [hres] at hopen
        exact count_of_hook hopen.2 _ x

/-- What is granted in a step is granted to its program. -/
theorem stepTally_eq (library : Library P) (r : Run P) :
    stepTally library r = thenTally ⟨0, 0⟩ openStep r fun _ opened =>
      programTally library opened ⟨0, 0⟩ := by
  simp only [stepTally, hookTally_eq, thenTally_const]

/-! ### What a step comes to -/

/-- While a program is at work it is granted what it asks for. -/
theorem AtWork.agrees_answer (h : r.AtWork done rest w) (request : Request P β)
    (hx : w.Agrees x) : (request.work r w).Agrees (request.count r x) := by
  cases request with
  | schedule job =>
      obtain ⟨r', heq, -⟩ := h.schedule_eq job
      have hcount : (Request.schedule job).count r x = { x with schedules := x.schedules + 1 } := by
        simp only [Request.count, Run.answer, heq]
      rw [hcount]
      refine ⟨?_, hx.repeats⟩
      show (w.scheduled ++ [job]).length = x.schedules + 1
      rw [List.length_append, List.length_singleton, hx.scheduled]
  | requestRepeat =>
      have hcount : (Request.requestRepeat : Request P _).count r x
          = { x with repeats := x.repeats + 1 } := by
        simp only [Request.count, Run.answer, h.changeCurrent_eq_ok]
      rw [hcount]
      exact ⟨hx.scheduled, (decide_eq_true (Nat.succ_pos _)).symm⟩
  | scheduleHook => exact ⟨hx.scheduled, hx.repeats⟩
  | setName => exact ⟨hx.scheduled, hx.repeats⟩
  | readSnapshot => exact ⟨hx.scheduled, hx.repeats⟩
  | editSnapshot => exact ⟨hx.scheduled, hx.repeats⟩
  | editParts => exact ⟨hx.scheduled, hx.repeats⟩
  | editScratch => exact ⟨hx.scheduled, hx.repeats⟩
  | inspect => exact ⟨hx.scheduled, hx.repeats⟩
  | note => exact ⟨hx.scheduled, hx.repeats⟩
  | start => exact ⟨hx.scheduled, hx.repeats⟩
  | step => exact ⟨hx.scheduled, hx.repeats⟩
  | resume => exact ⟨hx.scheduled, hx.repeats⟩
  | execute => exact ⟨hx.scheduled, hx.repeats⟩

theorem AtWork.agrees (h : r.AtWork done rest w) (script : Script P α) (hx : w.Agrees x) :
    (script.work r w).Agrees (script.count r x) := by
  unfold Script.work Script.count
  generalize script.run = action
  induction action generalizing r w x with
  | done a => exact hx
  | ask request next ih => exact ih _ (h.answer request).1 (h.agrees_answer request hx)

/-- **What is counted in a step is what it comes to.** -/
theorem Stands.agrees (h : r.Stands done (job :: rest) state) (hopens : state.opens = .ok s)
    (library : Library P) : (r.workOf library job s).Agrees (stepTally library r) := by
  obtain ⟨hopen, hwork, -⟩ := h.opened_eq hopens
  obtain ⟨n, hn, hnode⟩ := hwork.currentNode_eq
  have hcurrent : r.opened.currentNode = .ok n := Timeline.node_eq_ok.mpr hn
  have hprogram : n.program = job := congrArg Node.program hnode
  have hcount : stepTally library r = (job.program library).count r.opened ⟨0, 0⟩ := by
    rw [stepTally_eq, thenTally, hopen]
    simp only [programTally, hcurrent, hprogram]
  rw [hcount]
  exact hwork.agrees (job.program library) ⟨rfl, rfl⟩

/-! ### A run that is driven -/

/-- Driven from `r₀` to `r`, so many steps were scheduled, and so many were done that had asked to be
repeated. -/
inductive Tallied (library : Library P) (r₀ : Run P) : (schedules repeats : Nat) → Run P → Prop
  | start : Tallied library r₀ 0 0 r₀
  | step {schedules repeats : Nat} {r r' : Run P} {more : Bool}
      (h : Tallied library r₀ schedules repeats r) (idle : r.phase = .idle)
      (made : (step library).apply r = (.ok more, r')) :
      Tallied library r₀ (schedules + (stepTally library r).schedules)
        (repeats + if 0 < (stepTally library r).repeats then 1 else 0) r'
  | failed {schedules repeats : Nat} {r r' : Run P} {e : EngineError}
      (h : Tallied library r₀ schedules repeats r) (idle : r.phase = .idle)
      (fails : (step library).apply r = (.error e, r')) :
      Tallied library r₀ (schedules + (stepTally library r).schedules) repeats r'
  | aside {schedules repeats : Nat} {r : Run P} {β : Type}
      (h : Tallied library r₀ schedules repeats r) (request : Request P β) :
      Tallied library r₀ (schedules + (request.count r ⟨0, 0⟩).schedules) repeats
        (answer .refused β request r).2

variable {schedules repeats : Nat} {initial : Snapshot} {root : Job P} {config : RunConfig}
  {begun : List (Run P)}

/-- Every run that is driven can be counted along. -/
theorem Driven.exists_tallied (h : Driven library r₀ begun r) :
    ∃ schedules repeats, Tallied library r₀ schedules repeats r := by
  induction h with
  | refl => exact ⟨0, 0, .start⟩
  | @step begun r h idle ih =>
      obtain ⟨schedules, repeats, htallied⟩ := ih
      rcases hres : (Run.step library).apply r with ⟨e | more, r'⟩
      · exact ⟨_, _, htallied.failed idle hres⟩
      · exact ⟨_, _, htallied.step idle hres⟩
  | aside h request ih =>
      obtain ⟨schedules, repeats, htallied⟩ := ih
      exact ⟨_, _, htallied.aside request⟩

theorem Tallied.driven (h : Tallied library r₀ schedules repeats r) :
    ∃ begun, Driven library r₀ begun r := by
  induction h with
  | start => exact ⟨[], .refl⟩
  | step _ idle made ih =>
      obtain ⟨begun, hdriven⟩ := ih
      have hnext := hdriven.step idle
      rw [made] at hnext
      exact ⟨_, hnext⟩
  | failed _ idle fails ih =>
      obtain ⟨begun, hdriven⟩ := ih
      have hnext := hdriven.step idle
      rw [fails] at hnext
      exact ⟨_, hnext⟩
  | aside _ request ih =>
      obtain ⟨begun, hdriven⟩ := ih
      exact ⟨_, hdriven.aside request⟩

/-- Of the nodes some are archived and the others wait. -/
theorem Stands.size_eq {jobs : List (Job P)} (h : r.Stands done jobs state) :
    r.timeline.size = done.length + jobs.length := by
  obtain ⟨⟨f, ids, hshape, horder, hfront⟩, -, -⟩ := h
  have hids : ids.length = jobs.length := by
    cases hfront with
    | next final current queue => rw [List.length_cons, List.length_cons, queue.length_eq]
    | last final => rfl
  rw [← hshape.length_order, horder, List.length_append, hids]

theorem Rows.stands {jobs : List (Job P)} (h : r.Rows done jobs state) :
    r.Stands done jobs state := by
  unfold Rows at h
  split at h
  · next hjobs => exact hjobs ▸ h.stands
  · exact h.stands

/-- A step that is made adds the nodes that it was granted. -/
theorem Driven.size_step (h : Driven library (ofJob initial root config) begun r)
    (idle : r.phase = .idle) {more : Bool} (made : (Run.step library).apply r = (.ok more, r')) :
    r'.timeline.size = r.timeline.size + (stepTally library r).schedules
      + if 0 < (stepTally library r).repeats then 1 else 0 := by
  obtain ⟨done, job, rest, state, hbetween⟩ := h.exists_between idle
  obtain ⟨s, w, data, state', hp⟩ := hbetween.exists_passes made
  obtain ⟨r₁, hstep, hrows, -⟩ := hbetween.advance hp
  obtain ⟨-, rfl⟩ := Prod.mk.inj (made.symm.trans hstep)
  obtain ⟨hscheduled, hrepeats⟩ := hbetween.stands.agrees hp.opens library
  have hnext : w.next.length = (stepTally library r).schedules
      + if 0 < (stepTally library r).repeats then 1 else 0 := by
    rw [Work.next, List.length_append, hp.work, hscheduled, hrepeats]
    by_cases hasked : 0 < (stepTally library r).repeats <;> simp [hasked]
  rw [hrows.stands.size_eq, hbetween.stands.size_eq]
  simp only [List.length_append, List.length_cons, List.length_nil, hnext]
  omega

/-- **The nodes of a run are accounted for**, unless one of its steps has failed. -/
theorem Tallied.size_eq (h : Tallied library (ofJob initial root config) schedules repeats r)
    (hphase : r.phase = .idle ∨ r.phase = .finished) :
    r.timeline.size = 1 + schedules + repeats := by
  induction h with
  | start => rfl
  | step h idle made ih =>
      obtain ⟨begun, hdriven⟩ := h.driven
      rw [hdriven.size_step idle made, ih (.inl idle)]
      omega
  | @failed schedules repeats r r' e h idle fails ih =>
      have hended := stepped_step idle library
      rw [fails] at hended
      cases hended with
      | failed e phase steps =>
          have haborted : r'.phase = .aborted := phase
          simp [haborted] at hphase
  | @aside schedules repeats r β h request ih =>
      obtain ⟨begun, hdriven⟩ := h.driven
      obtain ⟨scratch, notes, heq⟩ := hdriven.standing.aside_eq request
      rw [heq] at hphase ⊢
      have hrunning : r.phase ≠ .running := by
        intro hc
        rcases hphase with hphase | hphase <;> simp [hc] at hphase
      rw [count_of_ne hrunning]
      exact ih hphase

end Run

end Chronicle
