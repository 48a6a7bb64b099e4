import Chronicle.Proofs.Edit
import Chronicle.Proofs.Run.Visits
import Chronicle.Proofs.Timeline.Labelled
/-!
The labels of a run.

At every moment the timeline of a run is `Labelled`, also when a step fails halfway.  So what a
stage does has to be said for either way it can end: `Edit.Leads` is the triple for it, with one
condition for the end of the edit and another for its failure.

Between two steps the current node is the first one without a label (`Next`).  `openStep` gives it
its label, and from then on it is the last that has begun (`Begun`), which is what adding children
and a copy to it needs.  Handing over moves on to the node right behind it, and that is the first
without a label again.  What programs and hooks ask for in the meantime is at most a change of
states, of the current node, or one more child (`Writes`; `Touches` where it does not matter which
state).
-/

namespace Chronicle

namespace Run

variable {P α β : Type} {library : Library P} {r r' : Run P} {id : NodeId}
  {begun rest : List NodeId}

/-! ### What a request can do -/

/-- What a request of a program or a hook makes of a run: the only state that it writes is the one
at work. -/
inductive Writes (r : Run P) : Run P → Prop
  | aside (scratch : Scratch) (notes : List String) : Writes r { r with scratch, notes }
  | state {place : Workplace} (work : r.workplace? = some place) (snapshot : Snapshot)
      (scratch : Scratch) : Writes r { r.putState place (.live snapshot) with scratch }
  | node (running : r.phase = .running) (g : Node (Job P) → Node (Job P))
      (place : ∀ n, (g n).place = n.place) (label : ∀ n, (g n).label = n.label)
      (status : ∀ n, (g n).status = n.status) : Writes r (r.modifyNode r.current g)
  | child (running : r.phase = .running) {job : Job P} {child : NodeId}
      {timeline : Timeline (Job P)}
      (adopted : r.timeline.adopt r.current job = .ok (child, timeline)) :
      Writes r { r with timeline }

theorem Writes.refl (r : Run P) : r.Writes r := .aside r.scratch r.notes

theorem changeCurrent_writes (operation : StepOperation) {g : Node (Job P) → Node (Job P)}
    (hplace : ∀ n, (g n).place = n.place) (hlabel : ∀ n, (g n).label = n.label)
    (hstatus : ∀ n, (g n).status = n.status) :
    r.Writes ((changeCurrent operation g).apply r).2 := by
  rw [changeCurrent, Edit.apply_atomic]
  by_cases hrunning : r.phase = .running
  · simp only [requireRunning, if_pos hrunning, bind, Except.bind, pure, Except.pure]
    cases r.currentNode with
    | ok n => exact .node hrunning g hplace hlabel hstatus
    | error e => exact .refl r
  · simp only [requireRunning, if_neg hrunning, bind, Except.bind]
    exact .refl r

theorem schedule_writes (job : Job P) : r.Writes ((Run.schedule job).apply r).2 := by
  rw [Run.schedule, Edit.apply_atomic]
  by_cases hrunning : r.phase = .running
  · simp only [requireRunning, if_pos hrunning, bind, Except.bind, pure, Except.pure]
    cases hadopt : r.timeline.adopt r.current job with
    | ok answer => exact .child hrunning hadopt
    | error e => exact .refl r
  · simp only [requireRunning, if_neg hrunning, bind, Except.bind]
    exact .refl r

/-- The place of the state at work, whatever it is wanted for. -/
theorem workplace?_of_stateAtWork {operation : StepOperation} {place : Workplace} {s : Snapshot}
    (h : r.stateAtWork operation = .ok (place, s)) : r.workplace? = some place := by
  unfold stateAtWork at h
  split at h
  · cases h
  · next place' hplace =>
      split at h
      · cases h
        exact hplace
      · cases h

/-- **A request of a program or a hook does nothing but what `Writes` says.** -/
theorem answer_writes (hidle : r.phase ≠ .idle) (request : Request P β) :
    r.Writes (answer .refused β request r).2 := by
  cases request with
  | schedule job => exact schedule_writes job
  | scheduleHook job =>
      exact changeCurrent_writes .scheduleHook (fun _ => rfl) (fun _ => rfl) fun _ => rfl
  | requestRepeat =>
      exact changeCurrent_writes .requestRepeat (fun _ => rfl) (fun _ => rfl) fun _ => rfl
  | setName name => exact changeCurrent_writes .setName (fun _ => rfl) (fun _ => rfl) fun _ => rfl
  | editSnapshot edit =>
      simp only [answer, Run.editSnapshot, Edit.apply_mk]
      split
      · exact .refl r
      · next place snapshot hwork =>
          have hplace := workplace?_of_stateAtWork hwork
          cases place with
          | node id => exact .state hplace (edit.apply snapshot).2 r.scratch
          | final => exact .state hplace (edit.apply snapshot).2 r.scratch
  | editParts edit =>
      simp only [answer, Run.editParts, Edit.apply_mk]
      split
      · exact .refl r
      · next place snapshot hwork =>
          exact .state (workplace?_of_stateAtWork hwork) (edit.apply (snapshot, r.scratch)).2.1 _
  | editScratch change => exact .aside _ r.notes
  | note text => exact .aside r.scratch _
  | start =>
      have hstart : r.start = r := by simp [Run.start, hidle]
      simp only [answer, hstart]
      exact .refl r
  | readSnapshot => exact .refl r
  | inspect => exact .refl r
  | step => exact .refl r
  | resume => exact .refl r
  | execute rounds => exact .refl r

/-- The same without the place of the state at work, which has no part in the labels. -/
inductive Touches (r : Run P) : Run P → Prop
  | aside (scratch : Scratch) (notes : List String) : Touches r { r with scratch, notes }
  | state (place : Workplace) (state : SnapshotState) (scratch : Scratch) :
      Touches r { r.putState place state with scratch }
  | node (running : r.phase = .running) (g : Node (Job P) → Node (Job P))
      (place : ∀ n, (g n).place = n.place) (label : ∀ n, (g n).label = n.label)
      (status : ∀ n, (g n).status = n.status) : Touches r (r.modifyNode r.current g)
  | child (running : r.phase = .running) {job : Job P} {child : NodeId}
      {timeline : Timeline (Job P)}
      (adopted : r.timeline.adopt r.current job = .ok (child, timeline)) :
      Touches r { r with timeline }

theorem Writes.touches (h : r.Writes r') : r.Touches r' := by
  cases h with
  | aside scratch notes => exact .aside scratch notes
  | @state place work snapshot scratch => exact .state place (.live snapshot) scratch
  | node running g place label status => exact .node running g place label status
  | child running adopted => exact .child running adopted

theorem answer_touches (hidle : r.phase ≠ .idle) (request : Request P β) :
    r.Touches (answer .refused β request r).2 :=
  (answer_writes hidle request).touches

/-! ### Where a run is with its labels -/

/-- The timeline of the run is labelled. -/
def Marked (r : Run P) : Prop := ∃ begun rest, r.timeline.Labelled begun rest

/-- The current node is `id`, and it is the next to get its label. -/
def Next (id : NodeId) (r : Run P) : Prop :=
  r.current = id ∧ ∃ begun rest, r.timeline.Labelled begun (id :: rest)

/-- The current node is `id`, and it was the last to get its label. -/
def Begun (id : NodeId) (r : Run P) : Prop :=
  r.current = id ∧ ∃ begun rest, r.timeline.Labelled (begun ++ [id]) rest

/-- The state was handed on, to the next node if there is one. -/
def Handed (more : Bool) (r : Run P) : Prop := if more then ∃ id, r.Next id else r.Marked

theorem Next.marked (h : r.Next id) : r.Marked := by
  obtain ⟨-, begun, rest, h⟩ := h
  exact ⟨begun, id :: rest, h⟩

theorem Begun.marked (h : r.Begun id) : r.Marked := by
  obtain ⟨-, begun, rest, h⟩ := h
  exact ⟨begun ++ [id], rest, h⟩

theorem Handed.marked {more : Bool} (h : r.Handed more) : r.Marked := by
  cases more with
  | true =>
      obtain ⟨id, h⟩ := h
      exact h.marked
  | false => exact h

/-- States have no part in the labels. -/
theorem labelled_putState (h : r.timeline.Labelled begun rest) (place : Workplace)
    (state : SnapshotState) : (r.putState place state).timeline.Labelled begun rest := by
  cases place with
  | node id => exact h.modify id (fun _ => rfl) (fun _ => rfl) fun _ _ => rfl
  | final => exact h

theorem current_putState (place : Workplace) (state : SnapshotState) :
    (r.putState place state).current = r.current := by
  cases place <;> rfl

theorem phase_putState (place : Workplace) (state : SnapshotState) :
    (r.putState place state).phase = r.phase := by
  cases place <;> rfl

theorem Next.putState (h : r.Next id) (place : Workplace) (state : SnapshotState) :
    (r.putState place state).Next id := by
  obtain ⟨hcurrent, begun, rest, h⟩ := h
  exact ⟨(current_putState place state).trans hcurrent, begun, rest,
    labelled_putState h place state⟩

theorem Begun.putState (h : r.Begun id) (place : Workplace) (state : SnapshotState) :
    (r.putState place state).Begun id := by
  obtain ⟨hcurrent, begun, rest, h⟩ := h
  exact ⟨(current_putState place state).trans hcurrent, begun, rest,
    labelled_putState h place state⟩

theorem Handed.putState {more : Bool} (h : r.Handed more) (place : Workplace)
    (state : SnapshotState) : (r.putState place state).Handed more := by
  cases more with
  | true =>
      obtain ⟨id, h⟩ := h
      exact ⟨id, h.putState place state⟩
  | false =>
      obtain ⟨begun, rest, h⟩ := h
      exact ⟨begun, rest, labelled_putState h place state⟩

/-- The node whose step is under way can be changed in all but its links and its label. -/
theorem Begun.modifyNode (h : r.Begun id) {g : Node (Job P) → Node (Job P)}
    (hplace : ∀ n, (g n).place = n.place) (hlabel : ∀ n, (g n).label = n.label) :
    (r.modifyNode id g).Begun id := by
  obtain ⟨hcurrent, begun, rest, h⟩ := h
  refine ⟨hcurrent, begun, rest, h.modify id hplace hlabel fun hmem => ?_⟩
  obtain ⟨⟨f, hshape, horder, -⟩, -⟩ := h
  have hnodup := hshape.nodup
  rw [horder, List.nodup_append] at hnodup
  exact absurd rfl (hnodup.2.2 id (by simp) id hmem)

/-- A step under way stays so whatever its program asks for. -/
theorem Begun.touches (h : r.Begun id) (htouches : r.Touches r') :
    r'.Begun id ∧ r'.phase = r.phase := by
  cases htouches with
  | aside => exact ⟨h, rfl⟩
  | state place state scratch =>
      exact ⟨h.putState place state, phase_putState place state⟩
  | node running g place label status =>
      have hcurrent := h.1
      subst hcurrent
      exact ⟨h.modifyNode place label, rfl⟩
  | child running adopted =>
      obtain ⟨hcurrent, begun, rest, h⟩ := h
      subst hcurrent
      obtain ⟨rest', h'⟩ := h.adopt _ adopted
      exact ⟨⟨rfl, begun, rest', h'⟩, rfl⟩

/-- What was handed on stays so whatever a hook asks for. -/
theorem Handed.touches {more : Bool} (h : r.Handed more) (hphase : r.phase = .hook)
    (htouches : r.Touches r') : r'.Handed more ∧ r'.phase = .hook := by
  cases htouches with
  | aside => exact ⟨h, hphase⟩
  | state place state scratch =>
      exact ⟨h.putState place state, (phase_putState place state).trans hphase⟩
  | node running => simp [hphase] at running
  | child running => simp [hphase] at running

end Run

end Chronicle
