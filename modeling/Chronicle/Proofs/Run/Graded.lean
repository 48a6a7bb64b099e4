import Chronicle.Proofs.Run.Conduct
import Chronicle.Proofs.Run.Counting
import Chronicle.Proofs.Run.Lasting
import Chronicle.Proofs.Run.Moments
import Chronicle.Proofs.Timeline.Depths
/-!
Libraries whose programs are each at home on one level.

If every program schedules only such programs as belong right below it (`Library.Graded`), the
level of a program is the depth of its node, in every run and however it is driven
(`Driven.graded`).  A hook has no part in this, since it cannot schedule anything.
-/

namespace Chronicle

variable {P α β : Type} {level : Job P → Option Nat} {k : Nat}

/-- What the request schedules, if anything, belongs right below a step of level `k`. -/
def Request.SchedulesBelow (level : Job P → Option Nat) (k : Nat) (β : Type) (request : Request P β)
    (_ : Run P) : Prop :=
  match request with
  | .schedule job => level job = some (k + 1)
  | _ => True

/-- Every program that is at home on a level schedules only what belongs right below it. -/
def Library.Graded (library : Library P) (level : Job P → Option Nat) : Prop :=
  ∀ (job : Job P) (k : Nat), level job = some k →
    ∀ run : Run P, (job.program library).Always (Request.SchedulesBelow level k) run

/-- What all requests keep, in the run in which they are made, is kept by the action. -/
theorem Action.Always.perform {ok : (β : Type) → Request P β → Run P → Prop} {inv : Run P → Prop}
    (hkept : ∀ β (request : Request P β) run, ok β request run → inv run →
      inv (Run.answer .refused β request run).2) {action : Action P α} {run : Run P}
    (h : action.Always ok run) (hinv : inv run) :
    inv (action.perform (Run.answer .refused) run).2 := by
  induction action generalizing run with
  | done a => exact hinv
  | ask request next ih => exact ih _ h.2 (hkept _ request run h.1 hinv)

namespace Run

variable {library : Library P} {r r' : Run P} {begun : List (Run P)} {initial : Snapshot}
  {root : Job P} {config : RunConfig}

theorem lasting_graded (level : Job P → Option Nat) :
    Lasting fun r : Run P => r.timeline.Graded level where
  congr h htimeline _ := htimeline ▸ h
  modifyNode id _ h hplace hprogram := h.modify id hplace hprogram
  duplicate h hdup := h.duplicate hdup

/-! ### Programs -/

/-- The program of a step of level `k` is at work. -/
structure GradedAt (level : Job P → Option Nat) (k : Nat) (r : Run P) : Prop where
  phase : r.phase = .running
  graded : r.timeline.Graded level
  current : r.timeline.grade? level r.current = some k

theorem GradedAt.modifyNode (h : r.GradedAt level k) (id : NodeId) {g : Node (Job P) → Node (Job P)}
    (hplace : ∀ n, (g n).place = n.place) (hprogram : ∀ n, (g n).program = n.program) :
    (r.modifyNode id g).GradedAt level k :=
  ⟨h.phase, h.graded.modify id hplace hprogram,
    (Timeline.grade?_modify _ _ _ hprogram).trans h.current⟩

theorem GradedAt.putState (h : r.GradedAt level k) (place : Workplace) (state : SnapshotState) :
    (r.putState place state).GradedAt level k := by
  cases place with
  | node id => exact h.modifyNode id (fun _ => rfl) fun _ => rfl
  | final => exact ⟨h.phase, h.graded, h.current⟩

theorem GradedAt.changeCurrent (h : r.GradedAt level k) (operation : StepOperation)
    {g : Node (Job P) → Node (Job P)} (hplace : ∀ n, (g n).place = n.place)
    (hprogram : ∀ n, (g n).program = n.program) :
    ((changeCurrent operation g).apply r).2.GradedAt level k := by
  rw [Run.changeCurrent, Edit.apply_atomic]
  simp only [requireRunning, h.phase, if_pos, bind, Except.bind, pure, Except.pure]
  cases r.currentNode with
  | ok n => exact h.modifyNode _ hplace hprogram
  | error e => exact h

theorem GradedAt.schedule (h : r.GradedAt level k) {job : Job P}
    (hlevel : level job = some (k + 1)) : ((schedule job).apply r).2.GradedAt level k := by
  have hadopted : ∀ {child : NodeId} {timeline : Timeline (Job P)},
      r.timeline.adopt r.current job = .ok (child, timeline) →
        GradedAt level k { r with timeline } := fun hadopt =>
    ⟨h.phase, h.graded.adopt hadopt h.current hlevel,
      (Timeline.grownBy_adopt hadopt).1.grade?_eq h.current⟩
  rw [Run.schedule, Edit.apply_atomic]
  simp only [requireRunning, h.phase, if_pos, bind, Except.bind, pure, Except.pure]
  cases hadopt : r.timeline.adopt r.current job with
  | ok answer => simpa only [h.phase] using hadopted hadopt
  | error e => exact h

theorem GradedAt.answer (h : r.GradedAt level k) {request : Request P β}
    (hok : request.SchedulesBelow level k β r) :
    (answer .refused β request r).2.GradedAt level k := by
  cases request with
  | schedule job => exact h.schedule hok
  | scheduleHook job => exact h.changeCurrent .scheduleHook (fun _ => rfl) fun _ => rfl
  | requestRepeat => exact h.changeCurrent .requestRepeat (fun _ => rfl) fun _ => rfl
  | setName name => exact h.changeCurrent .setName (fun _ => rfl) fun _ => rfl
  | editSnapshot edit =>
      simp only [Run.answer, Run.editSnapshot, Edit.apply_mk]
      split
      · exact h
      · exact h.putState _ _
  | editParts edit =>
      simp only [Run.answer, Run.editParts, Edit.apply_mk]
      split
      · exact h
      · next place snapshot _ =>
          have hput := h.putState place (.live (edit.apply (snapshot, r.scratch)).2.1)
          exact ⟨hput.phase, hput.graded, hput.current⟩
  | start =>
      have hstart : r.start = r := by simp [Run.start, h.phase]
      simp only [Run.answer, hstart]
      exact h
  | editScratch change => exact ⟨h.phase, h.graded, h.current⟩
  | note text => exact ⟨h.phase, h.graded, h.current⟩
  | readSnapshot => exact h
  | inspect => exact h
  | step => exact h
  | resume => exact h
  | execute rounds => exact h

theorem performCurrent_graded (hlibrary : library.Graded level) :
    Edit.Leads (fun r => r.timeline.Graded level ∧ r.phase = .running) (performCurrent library)
      (fun _ r => r.timeline.Graded level) (fun r => r.timeline.Graded level) := by
  unfold performCurrent
  refine .get fun r h => .bind (fun n s => s = r ∧ r.timeline.node? r.current = some n)
    (.ofExcept (fun n hn s hs => ⟨hs, Timeline.node_eq_ok.mp hn⟩) fun s hs => hs ▸ h.1)
    fun n => .of_either ?_
  rintro s ⟨rfl, hn⟩
  obtain ⟨k, hk⟩ := h.1.exists_grade hn
  have hat : GradedAt level k s := ⟨h.2, h.1, (Timeline.grade?_of_node? hn).trans hk⟩
  exact ((hlibrary n.program k hk s).perform (fun _ request _ hok hat => hat.answer hok) hat).graded

/-! ### Whole runs -/

theorem runCurrent_graded (hlibrary : library.Graded level) :
    Edit.Keeps (fun r => r.timeline.Graded level) (runCurrent library) := by
  have hlasting := lasting_graded (P := P) level
  rw [runCurrent_eq]
  exact fun r hr => Edit.Leads.keeps (.get fun r hr => .bind _ (hlasting.stable.openStep_leads.mono
    (fun _ hs => hs ▸ hr) fun _ _ h => h) fun label => .bind _ (performCurrent_graded hlibrary)
    fun _ => .bind _ ((hlasting.closeStep _).leads fun _ h => h) fun closed =>
    hlasting.stable.conclude library label closed.1 closed.2) hr

/-- **In a run of a graded library the level of a program is the depth of its node**, however the
run is driven. -/
theorem Driven.graded (h : Driven library (ofJob initial root config) begun r)
    (hlibrary : library.Graded level) (hroot : level root = some 0) : r.timeline.Graded level := by
  induction h with
  | refl => exact Timeline.graded_ofRoot root (.live initial) hroot
  | @step begun r _ hidle ih =>
      have hnext := runCurrent_graded hlibrary r ih
      rw [Run.step, Edit.apply_mk, hidle]
      rcases hres : (runCurrent library).apply r with ⟨e | more, next⟩
      · rw [hres] at hnext
        exact hnext
      · rw [hres] at hnext
        exact hnext
  | aside h request ih =>
      obtain ⟨scratch, notes, heq⟩ := h.standing.aside_eq request
      rw [heq]
      exact ih

end Run

end Chronicle
