import Chronicle.Proofs.Run.Batches
import Chronicle.Proofs.Run.Conduct
import Chronicle.Proofs.Run.Failing
import Chronicle.Proofs.Snapshot
/-!
In the middle of a step.

`Within` are the runs that a program or a hook can see of itself: those between any two of its
requests.  The layout is that of a program at work or of a hook at work (`Within.layout`), so there
is a live state at hand, in the place where all three ways to it look: reading it, editing it and
editing it together with the scratch data (`Hands`).

Of the ways in which a step can fail there are two that speak of something missing: a node that the
timeline does not have, or a node without a state.  No stage of a step fails in such a way, and no
request is refused in such a way; if a step does, then because its program or its hook ended with
that error (`state_at_hand`).
-/

namespace Chronicle

variable {P α β : Type}

/-! ### What is missing -/

/-- The error says that a node is not there, or that it has no state to work on. -/
def EngineError.Missing : EngineError → Prop
  | unknownNode _ => True
  | invalidData (.noState _) => True
  | _ => False

theorem Grammar.present_of_ofData (data : GrammarData) :
    FailsOnly (¬ ·.Missing) (Grammar.ofData data) := by
  have hsymbol : ∀ (g : Grammar) name tag expected,
      FailsOnly (¬ ·.Missing) (g.withSymbol name tag expected) := by
    intro g name tag expected
    unfold withSymbol
    split
    · exact .error id
    · split
      · exact .error id
      · split <;> exact .pure _
  have hleft : ∀ (g : Grammar) name, FailsOnly (¬ ·.Missing) (g.requireNonterminal name) := by
    intro g name
    unfold requireNonterminal
    split
    · exact .pure ()
    · exact .error id
    · exact .error id
  have hright : ∀ (g : Grammar) word, FailsOnly (¬ ·.Missing) (g.requireWord word) := by
    intro g word
    unfold requireWord
    split
    · exact .error id
    · exact .pure ()
  refine .bind (.foldlM (fun g pair => hsymbol g _ _ _) _ _) fun g => ?_
  refine .bind (.foldlM (fun g pair => hsymbol g _ _ _) _ _) fun g => ?_
  refine .bind (hleft g _) fun _ => .foldlM (fun g pair => ?_) _ _
  exact .bind (hleft g _) fun _ => .foldlM (fun g pair => .bind (hright g _) fun _ => .pure _) _ _

theorem Bag.present_of_ofData (g : Grammar) (data : SortedMap String StructureData) :
    FailsOnly (¬ ·.Missing) (Bag.ofData g data) := by
  have hbody : ∀ id body, FailsOnly (¬ ·.Missing) (Body.ofData g id body) := by
    intro key body
    cases body with
    | symbolSet members tag =>
        simp only [Body.ofData]
        split
        · exact .error id
        · exact .pure _
    | table rows columns cells => exact .pure _
    | symbolMapping pairs => exact .pure _
    | stack items => exact .pure _
  refine .bind (.foldlM (fun bag pair => ?_) _ _) fun entries => .pure _
  exact .bind (.bind (hbody _ _) fun _ => .pure _) fun _ => .pure _

/-- What is wrong with data is never that something is missing. -/
theorem SnapshotData.present_of_materialize (data : SnapshotData) :
    FailsOnly (¬ ·.Missing) data.materialize :=
  .bind (Grammar.present_of_ofData _) fun g => .bind (Bag.present_of_ofData g _) fun _ => .pure _

theorem SnapshotState.present_of_opens {state : SnapshotState} (h : state ≠ .pending) :
    FailsOnly (¬ ·.Missing) state.opens := by
  cases state with
  | pending => exact absurd rfl h
  | live s => exact .pure s
  | archived data => exact data.present_of_materialize

theorem Snapshot.present_of_archive (s : Snapshot) : FailsOnly (¬ ·.Missing) s.archive := by
  have hcheck : FailsOnly (¬ ·.Missing) s.grammar.settled.checkReferences := by
    unfold Grammar.checkReferences
    split
    · exact .error id
    · dsimp only
      split
      · exact .error id
      · exact .pure ()
  rw [archive, apply_finalize, Grammar.apply_finalize]
  cases hres : s.grammar.settled.checkReferences with
  | ok _ => exact .pure _
  | error e => exact .error (hcheck e hres)

theorem Work.present_of_closes (w : Work P) (first : Bool) :
    FailsOnly (¬ ·.Missing) (w.closes first) := by
  unfold Work.closes
  split
  · exact .error id
  · exact w.snapshot.present_of_archive

/-- The error that a request is answered with, if it is. -/
def Request.error? (request : Request P β) : β → Option EngineError :=
  match request with
  | .schedule _ => errorOf
  | .scheduleHook _ => errorOf
  | .requestRepeat => errorOf
  | .setName _ => errorOf
  | .readSnapshot => errorOf
  | .editSnapshot _ => errorOf
  | .editParts _ => errorOf
  | .step => errorOf
  | .resume => errorOf
  | .execute _ => errorOf
  | _ => fun _ => none

/-- The error with which the edit of a request itself ends on the snapshot `s`. -/
def Request.ownError? (request : Request P β) (run : Run P) (s : Snapshot) : Option EngineError :=
  match request with
  | .editSnapshot edit => errorOf (edit.apply s).1
  | .editParts edit => errorOf (edit.apply (s, run.scratch)).1
  | _ => none

theorem errorOf_eq_some {x : Except EngineError α} {e : EngineError} :
    errorOf x = some e ↔ x = .error e := by
  cases x <;> simp [errorOf]

namespace Run

variable {library : Library P} {r r' r₀ : Run P} {begun : List (Run P)} {done : List NodeId}
  {jobs rest : List (Job P)} {job : Job P} {state : SnapshotState} {phase : Phase} {s : Snapshot}
  {e : EngineError}

/-! ### The state at hand -/

/-- The snapshot `s` is live in one place, and there it is read and written. -/
structure Hands (r : Run P) (s : Snapshot) : Prop where
  place : ∃ place, r.stateIn place = .live s ∧
    ∀ operation, r.stateAtWork operation = .ok (place, s)
  read : answer .refused _ .readSnapshot r = (.ok s, r)
  /-- An edit begins on the snapshot, and what it makes of it is read from then on. -/
  edit : ∀ {α : Type} (edit : Edit Snapshot α),
    (answer .refused _ (.editSnapshot edit) r).1 = (edit.apply s).1 ∧
      (answer .refused _ .readSnapshot (answer .refused _ (.editSnapshot edit) r).2).1
        = .ok (edit.apply s).2
  /-- Together with the scratch data it is the same snapshot. -/
  parts : ∀ {α : Type} (edit : Edit (Snapshot × Scratch) α),
    (answer .refused _ (.editParts edit) r).1 = (edit.apply (s, r.scratch)).1 ∧
      (answer .refused _ (.editParts edit) r).2.scratch = (edit.apply (s, r.scratch)).2.2 ∧
      (answer .refused _ .readSnapshot (answer .refused _ (.editParts edit) r).2).1
        = .ok (edit.apply (s, r.scratch)).2.1

theorem hands_of_snapshotAtWork (h : r.snapshotAtWork = .ok s) : r.Hands s := by
  obtain ⟨place, hplace, hlive⟩ := snapshotAtWork_eq_ok.mp h
  have hwork : ∀ operation, r.stateAtWork operation = .ok (place, s) := by
    intro operation
    simp only [stateAtWork, hplace, hlive, SnapshotState.live?]
  refine ⟨⟨place, hlive, hwork⟩, ?_, fun edit => ⟨?_, ?_⟩, fun edit => ⟨?_, ?_, ?_⟩⟩
  · simp only [answer, hwork, Except.map]
  · simp only [answer, editSnapshot, Edit.apply_mk, hwork]
  · exact snapshotAtWork_answer h (.editSnapshot edit)
  · simp only [answer, editParts, Edit.apply_mk, hwork]
  · simp only [answer, editParts, Edit.apply_mk, hwork]
  · exact snapshotAtWork_answer h (.editParts edit)

/-- Nothing is at hand: the state can neither be read nor written. -/
structure HandsNothing (r : Run P) : Prop where
  read : ∀ drive, answer drive _ .readSnapshot r = (.error (.notStepping .snapshot), r)
  edit : ∀ drive {α : Type} (edit : Edit Snapshot α),
    answer drive _ (.editSnapshot edit) r = (.error (.notStepping .snapshotMut), r)
  parts : ∀ drive {α : Type} (edit : Edit (Snapshot × Scratch) α),
    answer drive _ (.editParts edit) r = (.error (.notStepping .partsMut), r)

theorem handsNothing (hrunning : r.phase ≠ .running) (hhook : r.phase ≠ .hook) :
    r.HandsNothing := by
  have hwork : ∀ operation, r.stateAtWork operation = .error (.notStepping operation) := by
    intro operation
    have hplace : r.workplace? = none := by
      cases hphase : r.phase <;> simp_all [workplace?]
    rw [stateAtWork, hplace]
  refine ⟨fun drive => ?_, fun drive _ edit => ?_, fun drive _ edit => ?_⟩
  · simp only [answer, hwork, Except.map]
  · simp only [answer, editSnapshot, Edit.apply_mk, hwork]
  · simp only [answer, editParts, Edit.apply_mk, hwork]

/-! ### Every run within a step -/

/-- The runs in the middle of a step that is begun while `r₀` is driven: after some requests of its
program, or of its hook.  The phase says which of the two. -/
inductive Within (library : Library P) (r₀ : Run P) : Phase → Run P → Prop
  | program {begun : List (Run P)} {r opened r' : Run P} {label : Label} {n : Node (Job P)}
      (h : Driven library r₀ begun r) (idle : r.phase = .idle)
      (opens : openStep.apply r = (.ok label, opened)) (node : opened.currentNode = .ok n)
      (meets : (n.program.program library).run.Meets (answer .refused) opened r') :
      Within library r₀ .running r'
  | hook {begun : List (Run P)} {r opened returned handed hooked r' : Run P} {label : Label}
      {n : Node (Job P)} {more : Bool} {hook : Job P}
      (h : Driven library r₀ begun r) (idle : r.phase = .idle)
      (opens : openStep.apply r = (.ok label, opened))
      (performs : (performCurrent library).apply opened = (.ok (), returned))
      (closes : (closeStep r.current).apply returned = (.ok (n, more), handed))
      (hooks : n.hook = some hook) (begins : openHook.apply handed = (.ok (), hooked))
      (meets : (hook.program library).run.Meets (answer .refused) hooked r') :
      Within library r₀ .hook r'

/-- The moments of a run are those between two steps and those within one. -/
theorem moment_iff : Moment library r₀ r ↔
    (∃ begun, Driven library r₀ begun r) ∨ ∃ phase, Within library r₀ phase r := by
  constructor
  · intro h
    cases h with
    | between h => exact .inl ⟨_, h⟩
    | program h idle opens node meets => exact .inr ⟨_, .program h idle opens node meets⟩
    | hook h idle opens performs closes hooks begins meets =>
        exact .inr ⟨_, .hook h idle opens performs closes hooks begins meets⟩
  · rintro (⟨begun, h⟩ | ⟨phase, h⟩)
    · exact .between h
    · cases h with
      | program h idle opens node meets => exact .program h idle opens node meets
      | hook h idle opens performs closes hooks begins meets =>
          exact .hook h idle opens performs closes hooks begins meets

variable {initial : Snapshot} {root : Job P} {config : RunConfig}

/-- A run that a step can be begun in stands before a job and a state for it. -/
theorem Driven.exists_between (h : Driven library (ofJob initial root config) begun r)
    (hidle : r.phase = .idle) :
    ∃ done job rest state, r.Between done (job :: rest) state := by
  cases h.standing with
  | finished _ _ _ _ _ closed => simp [closed.phase] at hidle
  | aborted phase => simp [phase] at hidle
  | idle visits jobs state runs told between awaited =>
      cases jobs with
      | nil => exact absurd rfl between.waiting
      | cons job rest => exact ⟨_, job, rest, state, between⟩

/-- The layout within a step is that of a program at work, or of a hook at work. -/
theorem Within.layout (h : Within library (ofJob initial root config) phase r) :
    (phase = .running ∧ ∃ done rest w, r.AtWork done rest w) ∨
      (phase = .hook ∧ ∃ done jobs s, r.AtHook done jobs s) := by
  cases h with
  | @program begun r opened r' label n h idle opens node meets =>
      obtain ⟨done, job, rest, state, hbetween⟩ := h.exists_between idle
      obtain ⟨s, hopens⟩ := hbetween.stands.exists_opens opens
      obtain ⟨hopen, hwork, -⟩ := hbetween.stands.opened_eq hopens
      obtain rfl : r.opened = opened := (Prod.mk.inj (hopen.symm.trans opens)).2
      refine .inl ⟨rfl, done, rest, ?_⟩
      exact meets.holds (fun r => ∃ w, r.AtWork done rest w)
        (fun _ request _ hw => hw.imp' _ fun w hw => (hw.answer request).1) ⟨_, hwork⟩
  | @hook begun r opened returned handed hooked r' label n more hook h idle opens performs closes
      hooks begins meets =>
      obtain ⟨done, job, rest, state, hbetween⟩ := h.exists_between idle
      obtain ⟨s, hopens⟩ := hbetween.stands.exists_opens opens
      obtain ⟨hopen, -, -⟩ := hbetween.stands.opened_eq hopens
      obtain rfl : r.opened = opened := (Prod.mk.inj (hopen.symm.trans opens)).2
      obtain ⟨hperform, -, -⟩ := hbetween.stands.returned_eq hopens library
      obtain rfl : r.returned library = returned :=
        (Prod.mk.inj (hperform.symm.trans performs)).2
      obtain ⟨data, hcloses⟩ := hbetween.stands.exists_closes hopens closes
      obtain ⟨n', hclose, -, hstands, -⟩ := hbetween.stands.handedOn_eq hopens hcloses
      obtain rfl : r.handedOn library = handed := (Prod.mk.inj (hclose.symm.trans closes)).2
      cases hmaterialize : data.materialize with
      | error e =>
          simp [hstands.openHook_eq.2 e hmaterialize] at begins
      | ok s₀ =>
          obtain ⟨hbegins, hat, -⟩ := hstands.hookOpened_eq hmaterialize
          obtain rfl : r.hookOpened library = _ := (Prod.mk.inj (hbegins.symm.trans begins)).2
          refine .inr ⟨rfl, done ++ [r.current], (r.workOf library job s).next ++ rest, ?_⟩
          exact meets.holds (fun r' => ∃ s, r'.AtHook _ _ s)
            (fun _ request _ hs => hs.imp' _ fun s hs => (hs.answer request).1) ⟨_, hat⟩

theorem Within.phase_eq (h : Within library (ofJob initial root config) phase r) :
    r.phase = phase := by
  rcases h.layout with ⟨rfl, done, rest, w, hwork⟩ | ⟨rfl, done, jobs, s, hhook⟩
  · exact hwork.phase
  · exact hhook.phase

theorem Within.exists_hands (h : Within library (ofJob initial root config) phase r) :
    ∃ s, r.Hands s := by
  rcases h.layout with ⟨rfl, done, rest, w, hwork⟩ | ⟨rfl, done, jobs, s, hhook⟩
  · exact ⟨w.snapshot, hands_of_snapshotAtWork hwork.snapshotAtWork_eq⟩
  · obtain ⟨place, hplace, -⟩ := hhook.exists_place
    refine ⟨s, hands_of_snapshotAtWork ?_⟩
    rw [snapshotAtWork, hplace]
    rfl

/-! ### Refused requests -/

/-- A step that is not begun: the run is finished, or aborted, or within a step. -/
theorem step_of_ne (h : r.phase ≠ .idle) (library : Library P) :
    (step library).apply r = (.ok false, r) ∨ (step library).apply r = (.error .runAborted, r) ∨
      (step library).apply r = (.error .stepInProgress, r) := by
  rw [step, Edit.apply_mk]
  cases hphase : r.phase with
  | idle => exact absurd hphase h
  | finished => exact .inl rfl
  | aborted => exact .inr (.inl rfl)
  | running => exact .inr (.inr rfl)
  | hook => exact .inr (.inr rfl)

theorem requireRunning_of_ne (h : r.phase ≠ .running) (operation : StepOperation) :
    r.requireRunning operation = .error (.notStepping operation) := by
  rw [requireRunning, if_neg h]

theorem schedule_of_ne (h : r.phase ≠ .running) (job : Job P) :
    (schedule job).apply r = (.error (.notStepping .schedule), r) := by
  rw [schedule, Edit.apply_atomic, requireRunning_of_ne h]
  rfl

theorem changeCurrent_of_ne (h : r.phase ≠ .running) (operation : StepOperation)
    (g : Node (Job P) → Node (Job P)) :
    (changeCurrent operation g).apply r = (.error (.notStepping operation), r) := by
  rw [changeCurrent, Edit.apply_atomic, requireRunning_of_ne h]
  rfl

theorem AtWork.changeCurrent_eq_ok {w : Work P} (h : r.AtWork done rest w)
    (operation : StepOperation) (g : Node (Job P) → Node (Job P)) :
    (changeCurrent operation g).apply r = (.ok (), r.modifyNode r.current g) := by
  obtain ⟨n, hn, -⟩ := h.currentNode_eq
  rw [changeCurrent, Edit.apply_atomic]
  simp only [requireRunning, h.phase, if_pos, currentNode, Timeline.node_eq_ok.mpr hn, bind,
    Except.bind, pure, Except.pure]

/-! ### Nothing is missing -/

/-- If the run refuses a request, then not because something is missing; what an edit ends with is
its own. -/
theorem Hands.ownError?_eq (h : r.Hands s)
    (hschedule : ∀ job, FailsOnly (¬ ·.Missing) ((schedule job).apply r).1)
    (hchange : ∀ operation g, FailsOnly (¬ ·.Missing) ((changeCurrent operation g).apply r).1)
    (request : Request P β) (herror : request.error? (answer .refused β request r).1 = some e)
    (hmissing : e.Missing) : request.ownError? r s = some e := by
  have hrefused : ∀ {γ : Type} {x : Except EngineError γ}, FailsOnly (¬ ·.Missing) x →
      errorOf x ≠ some e := fun hx hc => hx e (errorOf_eq_some.mp hc) hmissing
  have hdriven : some EngineError.stepInProgress ≠ some e := by
    rintro ⟨⟩
    exact hmissing
  cases request with
  | schedule job => exact absurd herror (hrefused (hschedule job))
  | scheduleHook job => exact absurd herror (hrefused (hchange _ _))
  | requestRepeat => exact absurd herror (hrefused (hchange _ _))
  | setName name => exact absurd herror (hrefused (hchange _ _))
  | readSnapshot =>
      rw [h.read] at herror
      exact absurd herror (hrefused (.pure s))
  | editSnapshot edit =>
      rw [Request.ownError?, ← (h.edit edit).1]
      exact herror
  | editParts edit =>
      rw [Request.ownError?, ← (h.parts edit).1]
      exact herror
  | step => exact absurd herror hdriven
  | resume => exact absurd herror hdriven
  | execute rounds => exact absurd herror hdriven
  | editScratch change => cases herror
  | inspect => cases herror
  | note text => cases herror
  | start => cases herror

theorem Within.ownError?_eq (h : Within library (ofJob initial root config) phase r)
    (hhands : r.Hands s) (request : Request P β)
    (herror : request.error? (answer .refused β request r).1 = some e) (hmissing : e.Missing) :
    request.ownError? r s = some e := by
  refine hhands.ownError?_eq (fun job => ?_) (fun operation g => ?_) request herror hmissing
  · rcases h.layout with ⟨-, done, rest, w, hwork⟩ | ⟨-, done, jobs, s, hhook⟩
    · obtain ⟨r', heq, -⟩ := hwork.schedule_eq job
      rw [heq]
      exact .pure _
    · rw [schedule_of_ne (by simp [hhook.phase])]
      exact .error id
  · rcases h.layout with ⟨-, done, rest, w, hwork⟩ | ⟨-, done, jobs, s, hhook⟩
    · rw [hwork.changeCurrent_eq_ok]
      exact .pure ()
    · rw [changeCurrent_of_ne (by simp [hhook.phase])]
      exact .error id

/-- The program of the step that is begun in `r` ends with the error. -/
def ProgramFails (library : Library P) (r : Run P) (e : EngineError) : Prop :=
  ∃ label opened n, openStep.apply r = (.ok label, opened) ∧ opened.currentNode = .ok n ∧
    ((performScript .refused (n.program.program library)).apply opened).1 = .error e

/-- The hook of the step that is begun in `r` ends with the error. -/
def HookFails (library : Library P) (r : Run P) (e : EngineError) : Prop :=
  ∃ label opened returned n more handed hook hooked, openStep.apply r = (.ok label, opened) ∧
    (performCurrent library).apply opened = (.ok (), returned) ∧
    (closeStep r.current).apply returned = (.ok (n, more), handed) ∧
    n.hook = some hook ∧ openHook.apply handed = (.ok (), hooked) ∧
    ((performScript .refused (hook.program library)).apply hooked).1 = .error e

/-- **If something is missing in a step, then to its program or to its hook.** -/
theorem Between.missing_of_step (h : r.Between done (job :: rest) state)
    (herror : ((step library).apply r).1 = .error e) (hmissing : e.Missing) :
    ProgramFails library r e ∨ HookFails library r e := by
  obtain ⟨failed, hfails, -⟩ := h.exists_fails (Prod.ext herror rfl)
  cases hfails with
  | opening opens =>
      exact absurd hmissing (SnapshotState.present_of_opens h.stands.ready e opens)
  | program opens fails =>
      obtain ⟨hopen, hwork, -⟩ := h.stands.opened_eq opens
      obtain ⟨n, hn, hnode⟩ := hwork.currentNode_eq
      have hprogram : n.program = job := congrArg Node.program hnode
      exact .inl ⟨_, _, n, hopen, Timeline.node_eq_ok.mpr hn, hprogram ▸ fails⟩
  | closing opens program closes => exact absurd hmissing (Work.present_of_closes _ _ e closes)
  | @hookOpening s data hook opens program closes scheduled materialize =>
      exact absurd hmissing (data.present_of_materialize e materialize)
  | @hook s s₀ data hook opens program closes scheduled materialize fails =>
      obtain ⟨hopen, -, -⟩ := h.stands.opened_eq opens
      obtain ⟨hperform, -, -⟩ := h.stands.returned_eq opens library
      rw [program] at hperform
      obtain ⟨n, hclose, hn, hstands, -⟩ := h.stands.handedOn_eq opens closes
      obtain ⟨hbegins, -, -⟩ := hstands.hookOpened_eq materialize
      exact .inr ⟨_, _, _, n, _, _, hook, _, hopen, hperform, hclose,
        (congrArg Node.hook hn).trans scheduled, hbegins, fails⟩

/-- **Whoever is at work has a state at hand.**

While a program or a hook is at work, all three ways to the state lead to one live snapshot; at any
other moment none of them leads anywhere.  What the run refuses within a step it never refuses
because something is missing, so no step fails for that unless its program or its hook itself ends
with such an error. -/
theorem state_at_hand (library : Library P) (initial : Snapshot) (root : Job P)
    (config : RunConfig) :
    (∀ phase r, Within library (ofJob initial root config) phase r →
      r.phase = phase ∧ ∃ s, r.Hands s ∧ ∀ (β : Type) (request : Request P β) (e : EngineError),
        request.error? (answer .refused β request r).1 = some e → e.Missing →
          request.ownError? r s = some e) ∧
    (∀ r, Moment library (ofJob initial root config) r → r.phase ≠ .running → r.phase ≠ .hook →
      r.HandsNothing) ∧
    ∀ begun r e, Driven library (ofJob initial root config) begun r →
      ((step library).apply r).1 = .error e → e.Missing →
        ProgramFails library r e ∨ HookFails library r e := by
  refine ⟨fun phase r h => ?_, fun r _ => handsNothing, fun begun r e h herror hmissing => ?_⟩
  · obtain ⟨s, hhands⟩ := h.exists_hands
    exact ⟨h.phase_eq, s, hhands, fun β request e => h.ownError?_eq hhands request⟩
  · by_cases hidle : r.phase = .idle
    · obtain ⟨done, job, rest, state, hbetween⟩ := h.exists_between hidle
      exact hbetween.missing_of_step herror hmissing
    · -- A step that is not begun fails for another reason, or not at all.
      rcases step_of_ne hidle library with heq | heq | heq
      · rw [heq] at herror
        cases herror
      · rw [heq] at herror
        cases herror
        cases hmissing
      · rw [heq] at herror
        cases herror
        cases hmissing

/-- The first program has the second one work as its hook, on the state at the end of the run; the
third complains that a step is not there. -/
def complaining : Nat → Script Nat Unit
  | 0 => Script.demand (.scheduleHook (.named 1))
  | 1 => discard Script.readSnapshot
  | _ => throw (.unknownNode ⟨7⟩)

theorem state_at_hand_complaining :
    (∃ r s, Within complaining (ofJob oneSymbol (.named 0) {}) .hook r ∧ r.phase = .hook ∧
      r.Hands s) ∧
    ProgramFails complaining (ofJob oneSymbol (.named 2) {}) (.unknownNode ⟨7⟩) := by
  have hwithin : ∃ r, Within complaining (ofJob oneSymbol (.named 0) {}) .hook r :=
    ⟨_, .hook .refl rfl rfl rfl rfl rfl rfl (.here _ _)⟩
  obtain ⟨r, hwithin⟩ := hwithin
  obtain ⟨hphase, s, hhands, -⟩ :=
    (state_at_hand complaining oneSymbol (.named 0) {}).1 _ r hwithin
  have hstep : ((step complaining).apply (ofJob oneSymbol (.named 2) {})).1
      = .error (.unknownNode ⟨7⟩) := by decide +kernel
  refine ⟨⟨r, s, hwithin, hphase, hhands⟩, ?_⟩
  rcases (state_at_hand complaining oneSymbol (.named 2) {}).2.2 [] _ _ .refl hstep trivial with
    hprogram | ⟨label, opened, returned, n, more, handed, hook, hooked, hopen, hperform, -⟩
  · exact hprogram
  · -- The program fails, so no hook is ever performed.
    obtain rfl : (openStep.apply (ofJob oneSymbol (.named 2) {})).2 = opened := by rw [hopen]
    have hfails : ((performCurrent complaining).apply
      (openStep.apply (ofJob oneSymbol (.named 2) {})).2).1 ≠ .ok () := by decide +kernel
    exact absurd (congrArg Prod.fst hperform) hfails

end Run

end Chronicle
