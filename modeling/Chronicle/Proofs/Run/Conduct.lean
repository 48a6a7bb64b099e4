import Chronicle.Proofs.Run.Execution
import Chronicle.Proofs.Timeline.Archived
/-!
What programs do to the state at work.

Which requests a program makes can depend on the answers that it gets, so what is demanded of it is
demanded of the requests that it really makes, each in the run in which it makes it
(`Action.Always`).

Of the state at work a request makes what `Request.change` says, whatever the layout of the run is
(`snapshotAtWork_answer`).  So a whole program keeps of that state what all of its requests keep
(`Action.Always.change_keeps`).
-/

namespace Chronicle

variable {P α β : Type}

/-! ### Demands on requests -/

/-- Every request of the action is `ok` when it is made; `run` is where the action begins. -/
def Action.Always (ok : (β : Type) → Request P β → Run P → Prop) : Action P α → Run P → Prop
  | .done _, _ => True
  | .ask request next, run =>
    ok _ request run ∧
      (next (Run.answer .refused _ request run).1).Always ok (Run.answer .refused _ request run).2

namespace Action.Always

variable {ok ok' : (β : Type) → Request P β → Run P → Prop} {run : Run P}

theorem mono {action : Action P α} (h : action.Always ok run)
    (hok : ∀ β (request : Request P β) run, ok β request run → ok' β request run) :
    action.Always ok' run := by
  induction action generalizing run with
  | done a => trivial
  | ask request next ih => exact ⟨hok _ request run h.1, ih _ h.2⟩

theorem bind {x : Action P α} {f : α → Action P β} (hx : x.Always ok run)
    (hf : ∀ a run, (f a).Always ok run) : (x.bind f).Always ok run := by
  induction x generalizing run with
  | done a => exact hf a run
  | ask request next ih => exact ⟨hx.1, ih _ hx.2⟩

end Action.Always

/-- Every request of the script is `ok` when it is made. -/
def Script.Always (ok : (β : Type) → Request P β → Run P → Prop) (script : Script P α)
    (run : Run P) : Prop :=
  script.run.Always ok run

theorem Script.Always.bind {ok : (β : Type) → Request P β → Run P → Prop} {run : Run P}
    {script : Script P α} {f : α → Script P β} (h : script.Always ok run)
    (hf : ∀ a run, (f a).Always ok run) : Script.Always ok (script >>= f) run := by
  refine Action.Always.bind h fun result run => ?_
  cases result with
  | ok a => exact hf a run
  | error e => trivial

/-- A single request. -/
theorem Script.Always.demand {ok : (β : Type) → Request P β → Run P → Prop} {run : Run P}
    {request : Request P (Except EngineError α)} (h : ok _ request run) :
    (Script.demand request).Always ok run :=
  ⟨h, trivial⟩

theorem Script.Always.schedule {ok : (β : Type) → Request P β → Run P → Prop} {run : Run P}
    {program : P} (h : ok _ (.schedule (.named program)) run) :
    (Script.schedule program).Always ok run := by
  refine ⟨h, ?_⟩
  cases (Run.answer .refused _ (.schedule (.named program)) run).1 <;> trivial

theorem Script.Always.pure {ok : (β : Type) → Request P β → Run P → Prop} {run : Run P} (a : α) :
    Script.Always ok (pure a : Script P α) run := trivial

namespace Run

variable {r r' : Run P} {s : Snapshot} {place : Workplace}

/-! ### The state at work -/

theorem snapshotAtWork_eq_ok :
    r.snapshotAtWork = .ok s ↔ ∃ place, r.workplace? = some place ∧ r.stateIn place = .live s := by
  unfold snapshotAtWork stateAtWork
  cases r.workplace? with
  | none => simp [Except.map]
  | some place => cases hstate : r.stateIn place <;> simp [SnapshotState.live?, Except.map, hstate]

/-- The state at work is the same if the states of all nodes are. -/
theorem snapshotAtWork_congr (h : r.snapshotAtWork = .ok s) (hphase : r'.phase = r.phase)
    (hcurrent : r'.current = r.current) (hfinal : r'.final = r.final)
    (hstate : ∀ id n, r.timeline.node? id = some n →
      (r'.timeline.node? id).map (·.state) = some n.state) :
    r'.snapshotAtWork = .ok s := by
  obtain ⟨place, hplace, hlive⟩ := snapshotAtWork_eq_ok.mp h
  refine snapshotAtWork_eq_ok.mpr ⟨place, ?_, ?_⟩
  · rw [← hplace, workplace?, workplace?, hphase, hcurrent, hfinal]
  · cases place with
    | final => exact hfinal.trans hlive
    | node id =>
        rw [stateIn] at hlive ⊢
        cases hn : r.timeline.node? id with
        | none => simp [hn] at hlive
        | some n =>
            rw [hstate id n hn]
            simpa [hn] using hlive

/-- The state at work can be exchanged. -/
theorem snapshotAtWork_putState (hplace : r.workplace? = some place) {s₀ : Snapshot}
    (hlive : r.stateIn place = .live s₀) (s : Snapshot) (scratch : Scratch) :
    ({ r.putState place (.live s) with scratch } : Run P).snapshotAtWork = .ok s := by
  refine snapshotAtWork_eq_ok.mpr ⟨place, ?_, ?_⟩
  · cases place with
    | node id => exact hplace
    | final =>
        rw [stateIn] at hlive
        rw [workplace?] at hplace ⊢
        cases hphase : r.phase <;> simp_all [putState]
  · cases place with
    | final => rfl
    | node id =>
        rw [stateIn] at hlive
        cases hn : r.timeline.node? id with
        | none => simp [hn] at hlive
        | some n => simp [stateIn, putState, modifyNode, Timeline.node?_modify, hn]

theorem stateAtWork_of_snapshotAtWork (h : r.snapshotAtWork = .ok s) (operation : StepOperation) :
    ∃ place, r.stateAtWork operation = .ok (place, s) ∧ r.workplace? = some place ∧
      r.stateIn place = .live s := by
  obtain ⟨place, hplace, hlive⟩ := snapshotAtWork_eq_ok.mp h
  refine ⟨place, ?_, hplace, hlive⟩
  rw [stateAtWork, hplace]
  simp only [hlive, SnapshotState.live?]

/-- Nothing else of a node than its state matters. -/
theorem snapshotAtWork_changeCurrent (h : r.snapshotAtWork = .ok s) (operation : StepOperation)
    {g : Node (Job P) → Node (Job P)} (hstate : ∀ n, (g n).state = n.state) :
    ((changeCurrent operation g).apply r).2.snapshotAtWork = .ok s := by
  have hmodified : (r.modifyNode r.current g).snapshotAtWork = .ok s := by
    refine snapshotAtWork_congr h rfl rfl rfl fun id n hn => ?_
    rw [modifyNode, Timeline.node?_modify, hn]
    split <;> simp [hstate]
  rw [changeCurrent, Edit.apply_atomic]
  cases r.requireRunning operation with
  | error e => exact h
  | ok _ =>
      cases r.currentNode with
      | error e => exact h
      | ok n => exact hmodified

theorem snapshotAtWork_schedule (h : r.snapshotAtWork = .ok s) (job : Job P) :
    ((schedule job).apply r).2.snapshotAtWork = .ok s := by
  rw [schedule, Edit.apply_atomic]
  cases r.requireRunning .schedule with
  | error e => exact h
  | ok _ =>
      cases hadopt : r.timeline.adopt r.current job with
      | error e => simpa [hadopt, bind, Except.bind] using h
      | ok answer =>
          obtain ⟨child, timeline⟩ := answer
          have hgrown : ({ r with timeline } : Run P).snapshotAtWork = .ok s := by
            refine snapshotAtWork_congr h rfl rfl rfl fun id n hn => ?_
            have hsize : id.index < r.timeline.size := by
              obtain ⟨hlt, -⟩ := Array.getElem?_eq_some_iff.mp hn
              exact hlt
            have hcore := (Timeline.grownBy_adopt hadopt).1.kept id hsize
            rw [Timeline.core?, Timeline.core?, hn, Option.map_some] at hcore
            obtain ⟨n', hn', hsame⟩ := Option.map_eq_some_iff.mp hcore
            have hstate : n'.unlinked.state = n.unlinked.state := by rw [hsame]
            rw [hn', Option.map_some]
            exact congrArg some hstate
          simpa [hadopt, bind, Except.bind, pure, Except.pure] using hgrown

/-- **Of the state at work a request makes what it is for.** -/
theorem snapshotAtWork_answer (h : r.snapshotAtWork = .ok s) (request : Request P β) :
    (answer .refused β request r).2.snapshotAtWork = .ok (request.change r s) := by
  cases request with
  | schedule job => exact snapshotAtWork_schedule h job
  | scheduleHook job => exact snapshotAtWork_changeCurrent h .scheduleHook fun _ => rfl
  | requestRepeat => exact snapshotAtWork_changeCurrent h .requestRepeat fun _ => rfl
  | setName name => exact snapshotAtWork_changeCurrent h .setName fun _ => rfl
  | editSnapshot edit =>
      obtain ⟨place, hwork, hplace, hlive⟩ := stateAtWork_of_snapshotAtWork h .snapshotMut
      simp only [answer, editSnapshot, Edit.apply_mk, hwork]
      exact snapshotAtWork_putState hplace hlive _ r.scratch
  | editParts edit =>
      obtain ⟨place, hwork, hplace, hlive⟩ := stateAtWork_of_snapshotAtWork h .partsMut
      simp only [answer, editParts, Edit.apply_mk, hwork]
      exact snapshotAtWork_putState hplace hlive _ _
  | start =>
      have hstart : r.start = r := by
        obtain ⟨place, hplace, -⟩ := snapshotAtWork_eq_ok.mp h
        have hidle : r.phase ≠ .idle := by
          intro hc
          simp [workplace?, hc] at hplace
        simp [Run.start, hidle]
      simp only [answer, hstart]
      exact h
  | editScratch change => exact h
  | note text => exact h
  | readSnapshot => exact h
  | inspect => exact h
  | step => exact h
  | resume => exact h
  | execute rounds => exact h

end Run

/-! ### What a program keeps -/

/-- The request keeps what holds of the state at work. -/
def Request.Keeps (inv : Snapshot → Prop) (β : Type) (request : Request P β) (run : Run P) : Prop :=
  ∀ s, run.snapshotAtWork = .ok s → inv s → inv (request.change run s)

/-- What all requests of an action keep holds of the state at work at the end. -/
theorem Action.Always.change_keeps {inv : Snapshot → Prop} {action : Action P α} {run : Run P}
    {s : Snapshot} (halways : action.Always (Request.Keeps inv) run)
    (hwork : run.snapshotAtWork = .ok s) (hinv : inv s) :
    inv (action.tally (fun _ => Request.change) run s) := by
  induction action generalizing run s with
  | done a => exact hinv
  | ask request next ih =>
      exact ih _ halways.2 (Run.snapshotAtWork_answer hwork request) (halways.1 s hwork hinv)

end Chronicle
