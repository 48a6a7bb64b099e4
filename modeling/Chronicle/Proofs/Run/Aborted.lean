import Chronicle.Proofs.Run.History
import Chronicle.Proofs.Run.Phases
import Chronicle.Proofs.Run.Reopening
/-!
What is left of a run whose step failed.

The node of the step that failed still holds its state: live, as the program left it, if the
program failed, and as its record if anything did that comes later (`Fails.outcome`).  There is one
exception.  The root cannot be repeated, and by the time that is refused its state was taken out of
it and is lost (`RepeatsRoot`).

The end of the run holds no state yet when the program of a step fails or the step cannot be closed,
and while a hook is at work there it holds a live one; so there is no final snapshot.  Again there
is one exception: what the last step hands on is put there before its hook begins, and it stays
there if it does not open (`HookRefused`).
-/

namespace Chronicle

namespace Run

variable {P : Type} {library : Library P} {r r' failed : Run P} {done : List NodeId}
  {jobs rest : List (Job P)} {job : Job P} {state : SnapshotState} {s : Snapshot}
  {data : SnapshotData} {e : EngineError} {initial : Snapshot} {root : Job P} {config : RunConfig}
  {begun : List (Run P)}

/-! ### A run that is over -/

/-- Only scratch data and notes still come to a run that is over. -/
theorem Reaches.of_over (hover : r.phase = .finished ∨ r.phase = .aborted)
    (h : Reaches library r r') : ∃ scratch notes, r' = { r with scratch, notes } := by
  induction h with
  | refl => exact ⟨r.scratch, r.notes, rfl⟩
  | command h script ih =>
      obtain ⟨scratch, notes, rfl⟩ := ih
      obtain ⟨scratch', notes', heq⟩ :=
        command_of_over (r := { r with scratch, notes }) hover script
      exact ⟨scratch', notes', heq⟩

/-- The last step that was begun in a run that is aborted is the one that failed. -/
theorem Driven.exists_failed (h : Driven library (ofJob initial root config) begun r)
    (haborted : r.phase = .aborted) :
    ∃ before b failed e, begun = before ++ [b] ∧
      Driven library (ofJob initial root config) before b ∧ b.phase = .idle ∧
      (Run.step library).apply b = (.error e, failed) ∧
      ∃ scratch notes, r = { failed with scratch, notes } := by
  induction h with
  | refl => simp [ofJob] at haborted
  | @step begun r h hidle ih =>
      obtain ⟨e, herror⟩ := (stepped_step hidle library).aborted_iff.mp haborted
      exact ⟨begun, r, _, e, rfl, h, hidle, Prod.ext herror rfl, _, _, rfl⟩
  | aside h request ih =>
      obtain ⟨scratch, notes, heq⟩ := h.standing.aside_eq request
      rw [heq] at haborted ⊢
      obtain ⟨before, b, failed, e, hbegun, hb, hidle, hstep, scratch', notes', rfl⟩ := ih haborted
      exact ⟨before, b, failed, e, hbegun, hb, hidle, hstep, scratch, notes, rfl⟩

/-! ### The node of the step that failed -/

/-- A run begins with its root, and comes to it but once. -/
theorem Stands.current_eq_root_iff (h : r.Stands done (job :: rest) state) :
    r.current = Timeline.root ↔ done = [] := by
  obtain ⟨f, ids, -, hshape, horder, -⟩ := h.current_eq
  have hnodup := hshape.nodup
  obtain ⟨below, rfl⟩ := hshape.root
  cases done with
  | nil => simpa using (List.cons.inj horder).1.symm
  | cons first done =>
      obtain ⟨rfl, hbelow⟩ := List.cons.inj horder
      have hmem : r.current ∈ below.order ++ Forest.nil.order := by
        rw [hbelow]
        simp
      simp only [reduceCtorEq, iff_false]
      intro heq
      exact (List.nodup_cons.mp hnodup).1 (heq ▸ hmem)

/-- The step that is begun in `r` is that of the root, whose program is done and asked for a
repetition. -/
def RepeatsRoot (library : Library P) (r : Run P) : Prop :=
  r.current = Timeline.root ∧ ((performCurrent library).apply r.opened).1 = .ok () ∧
    ∃ n, (r.returned library).timeline.node? r.current = some n ∧ n.repeats = true

theorem Stands.repeatsRoot_iff (h : r.Stands done (job :: rest) state)
    (hopens : state.opens = .ok s) :
    RepeatsRoot library r ↔
      ((performScript .refused (job.program library)).apply r.opened).1 = .ok () ∧
        (r.workOf library job s).repeats ∧ done.isEmpty := by
  obtain ⟨hperform, hreturned, hkeeps⟩ := h.returned_eq hopens library
  obtain ⟨n, hn, hnode⟩ := hreturned.currentNode_eq
  rw [hkeeps.current] at hn
  have hrepeats : n.repeats = (r.workOf library job s).repeats := congrArg Node.repeats hnode
  rw [RepeatsRoot, h.current_eq_root_iff, hperform, hn, ← hrepeats, List.isEmpty_iff]
  constructor
  · rintro ⟨hdone, hprogram, n', hsome, hn'⟩
    obtain rfl := Option.some.inj hsome
    exact ⟨hprogram, hn', hdone⟩
  · rintro ⟨hprogram, hn', hdone⟩
    exact ⟨hdone, hprogram, n, rfl, hn'⟩

/-- What becomes of the node of a step that fails when its program was started. -/
theorem Fails.outcome (hfails : Fails library r done job state e failed)
    (h : r.Stands done (job :: rest) state) (hopens : state.opens = .ok s) :
    (((performScript .refused (job.program library)).apply r.opened).1 = .error e ∧
      failed.timeline.core? r.current = some (r.workOf library job s).node) ∨
    (((performScript .refused (job.program library)).apply r.opened).1 = .ok () ∧
      ((r.workOf library job s).repeats ∧ done.isEmpty → e = .duplicateRoot) ∧
      failed.timeline.core? r.current = (r.handedOn library).timeline.core? r.current) := by
  have hcloses : ∀ {result}, (r.workOf library job s).closes done.isEmpty = result →
      (r.workOf library job s).repeats ∧ done.isEmpty → result = .error .duplicateRoot := by
    rintro _ rfl hrepeats
    rw [Work.closes, if_pos hrepeats]
  have hnot : ∀ {data}, (r.workOf library job s).closes done.isEmpty = .ok data →
      ¬((r.workOf library job s).repeats ∧ done.isEmpty) := by
    intro data closes hrepeats
    cases hcloses closes hrepeats
  cases hfails with
  | opening opens => simp [hopens] at opens
  | program opens fails =>
      obtain ⟨-, hreturned, hkeeps⟩ := h.returned_eq hopens library
      have hcore := hreturned.current
      rw [hkeeps.current] at hcore
      exact .inl ⟨fails, hcore⟩
  | closing opens program closes =>
      obtain rfl := Except.ok.inj (hopens.symm.trans opens)
      exact .inr ⟨program, fun hc => Except.error.inj (hcloses closes hc), rfl⟩
  | hookOpening opens program closes scheduled materialize =>
      obtain rfl := Except.ok.inj (hopens.symm.trans opens)
      exact .inr ⟨program, fun hc => absurd hc (hnot closes), rfl⟩
  | @hook s s₀ data hook opens program closes scheduled materialize fails =>
      obtain rfl := Except.ok.inj (hopens.symm.trans opens)
      obtain ⟨n, -, -, hstands, -⟩ := h.handedOn_eq hopens closes
      obtain ⟨-, hat, hkeeps⟩ := hstands.hookOpened_eq materialize
      obtain ⟨-, hkeeps'⟩ := hat.perform (hook.program library)
      refine .inr ⟨program, fun hc => absurd hc (hnot closes), ?_⟩
      exact (hkeeps.trans hkeeps').past r.current (by simp)

/-- The node holds the state `s`: live, or as its record. -/
inductive Holds (r : Run P) (id : NodeId) (s : Snapshot) : Prop
  | live (state : r.stateIn (.node id) = .live s)
  | recorded (record : r.recordAt id = .ok (some s.toData))

theorem stateIn_of_core? {id : NodeId} {n : Node (Job P)} (h : r.timeline.core? id = some n) :
    ∃ m, r.timeline.node? id = some m ∧ m.state = n.state ∧ m.status = n.status ∧
      r.stateIn (.node id) = n.state := by
  obtain ⟨m, hm, rfl⟩ := Option.map_eq_some_iff.mp h
  exact ⟨m, hm, rfl, rfl, by simp [stateIn, hm, Node.unlinked]⟩

/-- **A step that fails loses no state, unless the root is to be repeated.**

Let a step fail whose program was started, and look at the run at any later time.  The node of the
step holds what the program left, live or as its record, unless it is the root and asked to be
repeated: then its state is gone.  The records that were there when the step began are there. -/
theorem failing_step_keeps_state (h : Driven library (ofJob initial root config) begun r)
    (hidle : r.phase = .idle) {label : Label} (hopen : (openStep.apply r).1 = .ok label)
    (hstep : (step library).apply r = (.error e, failed)) (hlater : Reaches library failed r') :
    ∃ s, (r.returned library).snapshotAtWork = .ok s ∧
      (¬RepeatsRoot library r → r'.Holds r.current s) ∧
      (RepeatsRoot library r → e = .duplicateRoot ∧
        r'.snapshotAt r.current = .error (.invalidData (.noState r.current))) ∧
      ∀ id n, r.timeline.node? id = some n → n.status = .archived →
        ∃ data, r.recordAt id = .ok (some data) ∧ r'.recordAt id = .ok (some data) := by
  obtain ⟨done, job, rest, state, hbetween⟩ := h.exists_between hidle
  have hstands := hbetween.stands
  have honward := h.onward_step hidle
  rw [hstep] at honward
  obtain ⟨left, hfails, rfl⟩ := hbetween.exists_fails hstep
  obtain ⟨scratch, notes, rfl⟩ := hlater.of_over (.inr rfl)
  obtain ⟨s, hopens⟩ :=
    hstands.exists_opens (Prod.ext hopen rfl : openStep.apply r = (.ok label, _))
  obtain ⟨-, hreturned, -⟩ := hstands.returned_eq hopens library
  refine ⟨_, hreturned.snapshotAtWork_eq, ?_⟩
  rw [hstands.repeatsRoot_iff hopens]
  have hcore := hfails.outcome hstands hopens
  refine ⟨fun hrepeats => ?_, fun hrepeats => ?_, fun id n hn hstatus => ?_⟩
  · rcases hcore with ⟨-, hcore⟩ | ⟨hprogram, -, hcore⟩
    · obtain ⟨-, -, -, -, hstate⟩ := stateIn_of_core? hcore
      exact .live hstate
    · rw [hstands.core?_handedOn hopens, if_neg fun hc => hrepeats ⟨hprogram, hc⟩] at hcore
      obtain ⟨n, hn, hstate, hstatus, -⟩ := stateIn_of_core? hcore
      exact .recorded (recordAt_of_node? hn hstatus hstate)
  · rcases hcore with ⟨hprogram, -⟩ | ⟨-, herror, hcore⟩
    · rw [hprogram] at hrepeats
      cases hrepeats.1
    · rw [hstands.core?_handedOn hopens, if_pos hrepeats.2] at hcore
      obtain ⟨n, hn, hstate, -⟩ := stateIn_of_core? hcore
      refine ⟨herror hrepeats.2, ?_⟩
      simp only [snapshotAt, Timeline.node_eq_ok.mpr hn, bind, Except.bind, hstate]
      rfl
  · obtain ⟨-, data, -, -, hrecord, hrecord', -⟩ :=
      (honward.of_timeline_eq rfl).node_eq hn hstatus
    exact ⟨data, hrecord, hrecord'⟩

/-- The first program schedules the second one, which adds a symbol and then fails; the third asks
to be repeated. -/
def faltering : Nat → Script Nat Unit
  | 0 => Script.schedule 1
  | 1 => do
    let _ ← Script.editSnapshot (Snapshot.editGrammar (Grammar.addSymbol "A"))
    throw (.unknownNode ⟨7⟩)
  | _ => Script.requestRepeat

/-- The symbol that the second program added is there to be looked at, and so is the record of the
first step. -/
theorem failing_step_keeps_state_faltering :
    ∃ begun r failed s, Driven faltering (ofJob oneSymbol (.named 0) {}) begun r ∧
      (step faltering).apply r = (.error (.unknownNode ⟨7⟩), failed) ∧ failed.Holds r.current s ∧
      (r.returned faltering).snapshotAtWork = .ok s ∧ s.grammar.hasNonterminal "A" = true ∧
      failed.recordAt Timeline.root = .ok (some oneSymbol.toData) := by
  have hdriven := (Driven.refl : Driven faltering (ofJob oneSymbol (.named 0) {}) [] _).step rfl
  generalize hr : ((step faltering).apply (ofJob oneSymbol (.named 0) {})).2 = r at hdriven
  have hidle : r.phase = .idle := by subst hr; decide +kernel
  have hopen : (openStep.apply r).1 = .ok (.following .root) := by subst hr; decide +kernel
  have hfails : ((step faltering).apply r).1 = .error (.unknownNode ⟨7⟩) := by
    subst hr
    decide +kernel
  have hcurrent : r.current ≠ Timeline.root := by subst hr; decide +kernel
  have hadded : ((r.returned faltering).snapshotAtWork.toOption.map
      (·.grammar.hasNonterminal "A")) = some true := by subst hr; decide +kernel
  have hroot : r.recordAt Timeline.root = .ok (some oneSymbol.toData) := by
    subst hr
    decide +kernel
  have harchived : (r.timeline.node? Timeline.root).map (·.status) = some .archived := by
    subst hr
    decide +kernel
  obtain ⟨n, hn, hstatus⟩ := Option.map_eq_some_iff.mp harchived
  obtain ⟨s, hs, hholds, -, hearlier⟩ :=
    failing_step_keeps_state hdriven hidle hopen (Prod.ext hfails rfl) .refl
  obtain ⟨data, hrecord, hrecord'⟩ := hearlier Timeline.root n hn hstatus
  refine ⟨_, r, _, s, hdriven, Prod.ext hfails rfl, hholds fun hc => hcurrent hc.1, hs, ?_, ?_⟩
  · simpa [hs, Except.toOption] using hadded
  · rw [hrecord', ← hrecord, hroot]

/-- The state of a root that asks to be repeated is lost. -/
theorem repeated_root_loses_state :
    ¬∀ (library : Library Nat) (initial : Snapshot) (root : Job Nat) (config : RunConfig)
      (begun : List (Run Nat)) (r failed : Run Nat) (label : Label) (e : EngineError),
      Driven library (ofJob initial root config) begun r → r.phase = .idle →
      (openStep.apply r).1 = .ok label → (step library).apply r = (.error e, failed) →
        ∃ s, (r.returned library).snapshotAtWork = .ok s ∧ failed.Holds r.current s := by
  intro hall
  have hfails : ((step faltering).apply (ofJob oneSymbol (.named 2) {})).1
      = .error .duplicateRoot := by decide +kernel
  have hpending : ((step faltering).apply (ofJob oneSymbol (.named 2) {})).2.stateIn
      (.node Timeline.root) = .pending := by decide +kernel
  have hrecord : ((step faltering).apply (ofJob oneSymbol (.named 2) {})).2.recordAt Timeline.root
      = .ok none := by decide +kernel
  obtain ⟨s, -, hholds⟩ := hall faltering oneSymbol (.named 2) {} [] _ _ .root .duplicateRoot .refl
    rfl (by decide +kernel) (Prod.ext hfails rfl)
  cases hholds with
  | live state => cases hpending.symm.trans state
  | recorded record => cases hrecord.symm.trans record

/-! ### The end of the run -/

/-- There is a final snapshot if the last step handed its data on, and they are data still. -/
theorem Stands.finalSnapshot?_eq (h : r.Stands done jobs state) :
    r.finalSnapshot? = if jobs = [] then state.archived? else none := by
  obtain ⟨⟨f, ids, -, -, hfront⟩, -, -⟩ := h
  cases hfront with
  | next final current queue =>
      rw [finalSnapshot?, final, if_neg (by simp)]
      rfl
  | last final => rw [finalSnapshot?, final, if_pos rfl]

/-- The final snapshot does not depend on the phase. -/
theorem finalSnapshot?_phase (r : Run P) (phase : Phase) :
    finalSnapshot? { r with phase := phase } = r.finalSnapshot? := rfl

/-- The step that is begun in `r` is the last one and hands on `data`, but its hook cannot begin on
them, since they do not open. -/
def HookRefused (library : Library P) (r : Run P) (data : SnapshotData) : Prop :=
  ∃ label n hook e, (openStep.apply r).1 = .ok label ∧
    ((performCurrent library).apply r.opened).1 = .ok () ∧
    ((closeStep r.current).apply (r.returned library)).1 = .ok (n, false) ∧
    n.hook = some hook ∧ (r.handedOn library).finalSnapshot? = some data ∧
    data.materialize = .error e

/-- Data on which the hook of the step cannot begin are at the end if the step is the last one. -/
theorem Stands.finalSnapshot?_handedOn_iff (h : r.Stands done (job :: rest) state)
    {data' : SnapshotData} {hook : Job P} (opens : state.opens = .ok s)
    (program : ((performScript .refused (job.program library)).apply r.opened).1 = .ok ())
    (closes : (r.workOf library job s).closes done.isEmpty = .ok data')
    (scheduled : (r.workOf library job s).hook = some hook)
    (materialize : data'.materialize = .error e) :
    (r.handedOn library).finalSnapshot? = some data ↔ HookRefused library r data := by
  obtain ⟨hopen, -, -⟩ := h.opened_eq opens
  obtain ⟨hperform, -, -⟩ := h.returned_eq opens library
  obtain ⟨n, hclose, hn, hstands, -⟩ := h.handedOn_eq opens closes
  have hfinal := hstands.finalSnapshot?_eq
  constructor
  · intro hsome
    rw [hfinal] at hsome
    split at hsome
    · next hlast =>
        obtain rfl : data' = data := Option.some.inj hsome
        rw [hlast] at hclose
        refine ⟨_, n, hook, e, congrArg Prod.fst hopen, ?_, congrArg Prod.fst hclose,
          (congrArg Node.hook hn).trans scheduled, ?_, materialize⟩
        · rw [hperform, program]
        · rw [hfinal, if_pos hlast]
          rfl
    · cases hsome
  · rintro ⟨-, -, -, -, -, -, -, -, hsome, -⟩
    exact hsome

/-- **A step that fails leaves a final snapshot only if it is the last one and its hook cannot
begin.** -/
theorem Fails.finalSnapshot?_eq_some_iff (hfails : Fails library r done job state e failed)
    (h : r.Stands done (job :: rest) state) :
    failed.finalSnapshot? = some data ↔ HookRefused library r data := by
  have hpending : ∀ {run : Run P}, run.final = .pending → run.finalSnapshot? ≠ some data := by
    intro run hfinal
    rw [finalSnapshot?, hfinal]
    simp [SnapshotState.archived?]
  cases hfails with
  | opening opens =>
      obtain ⟨-, -, -, -, -, -, -, -, -, hfinal⟩ := h.current_eq
      refine iff_of_false (hpending hfinal) ?_
      rintro ⟨_, _, _, _, hopen, -⟩
      rw [h.openStep_eq.2 e opens] at hopen
      cases hopen
  | program opens fails =>
      obtain ⟨hperform, hreturned, -⟩ := h.returned_eq opens library
      refine iff_of_false (hpending hreturned.underway.final) ?_
      rintro ⟨_, _, _, _, -, hprogram, -⟩
      rw [hperform, fails] at hprogram
      cases hprogram
  | closing opens program closes =>
      obtain ⟨hclose, hfinal, -⟩ := h.handedOn_eq_of_error opens closes
      refine iff_of_false (hpending hfinal) ?_
      rintro ⟨_, _, _, _, -, -, hclosed, -⟩
      rw [hclose] at hclosed
      cases hclosed
  | hookOpening opens program closes scheduled materialize =>
      rw [finalSnapshot?_phase]
      exact h.finalSnapshot?_handedOn_iff opens program closes scheduled materialize
  | @hook s s₀ data' hook opens program closes scheduled materialize fails =>
      obtain ⟨n, -, -, hstands, -⟩ := h.handedOn_eq opens closes
      obtain ⟨-, hat, -⟩ := hstands.hookOpened_eq materialize
      obtain ⟨hat', -⟩ := hat.perform (hook.program library)
      refine iff_of_false ?_ ?_
      · rw [hat'.stands.finalSnapshot?_eq]
        split <;> simp [SnapshotState.archived?]
      · rintro ⟨_, _, _, e', -, -, -, -, hsome, herror⟩
        rw [hstands.finalSnapshot?_eq] at hsome
        split at hsome
        · obtain rfl : data' = data := Option.some.inj hsome
          cases materialize.symm.trans herror
        · cases hsome

/-- **There is a final snapshot exactly if the run is complete, a refused hook apart.**

However a run is driven, it has a final snapshot exactly if it is finished, or if it was aborted
because the last step had handed its data on and its hook could not begin on them. -/
theorem final_snapshot_iff (h : Driven library (ofJob initial root config) begun r) :
    (∃ final, r.finalSnapshot? = some final) ↔ r.phase = .finished ∨
      r.phase = .aborted ∧ ∃ b data, begun.getLast? = some b ∧ HookRefused library b data := by
  cases h.standing with
  | idle visits jobs state runs told between awaited =>
      refine iff_of_false ?_ (by simp [between.phase])
      rw [between.stands.finalSnapshot?_eq, if_neg between.waiting]
      simp
  | finished visits data last runs told closed isLast ends =>
      exact iff_of_true ⟨data, closed.finalSnapshot?_eq⟩ (.inl closed.phase)
  | aborted phase =>
      obtain ⟨before, b, failed, e, rfl, hb, hidle, hstep, scratch, notes, rfl⟩ :=
        h.exists_failed phase
      obtain ⟨done, job, rest, state, hbetween⟩ := hb.exists_between hidle
      obtain ⟨left, hfails, rfl⟩ := hbetween.exists_fails hstep
      have hleft : ∀ data, left.finalSnapshot? = some data ↔ HookRefused library b data :=
        fun data => hfails.finalSnapshot?_eq_some_iff hbetween.stands
      constructor
      · rintro ⟨final, hfinal⟩
        exact .inr ⟨rfl, b, final, List.getLast?_concat .., (hleft final).mp hfinal⟩
      · rintro (hfinished | ⟨-, b', data, hlast, hrefused⟩)
        · cases hfinished
        · obtain rfl : b = b' := by simpa using hlast
          exact ⟨data, (hleft data).mpr hrefused⟩

/-- The first program puts something into a set that is no symbol, and schedules a hook that has
nothing to do. -/
def refusing : Nat → Script Nat Unit
  | 0 => do
    straying 1
    Script.demand (.scheduleHook (.named 1))
  | _ => pure ()

/-- The data on which the hook cannot begin stay at the end of the run. -/
theorem final_snapshot_iff_refusing :
    ∃ begun r, Driven refusing (ofJob oneSymbol (.named 0) {}) begun r ∧ r.phase = .aborted ∧
      ∃ b data, begun.getLast? = some b ∧ HookRefused refusing b data := by
  have hdriven := (Driven.refl : Driven refusing (ofJob oneSymbol (.named 0) {}) [] _).step rfl
  have hphase : ((step refusing).apply (ofJob oneSymbol (.named 0) {})).2.phase = .aborted := by
    decide +kernel
  have hfinal : ((step refusing).apply (ofJob oneSymbol (.named 0) {})).2.finalSnapshot?.isSome
      = true := by decide +kernel
  rcases (final_snapshot_iff hdriven).mp (Option.isSome_iff_exists.mp hfinal) with
    hfinished | ⟨-, hrefused⟩
  · cases hphase.symm.trans hfinished
  · exact ⟨_, _, hdriven, hphase, hrefused⟩

/-- So it is not only a run that is finished that has a final snapshot. -/
theorem aborted_with_final_snapshot :
    ¬∀ (library : Library Nat) (initial : Snapshot) (root : Job Nat) (config : RunConfig)
      (begun : List (Run Nat)) (r : Run Nat), Driven library (ofJob initial root config) begun r →
        ((∃ final, r.finalSnapshot? = some final) ↔ r.phase = .finished) := by
  intro hall
  have hphase : ((step refusing).apply (ofJob oneSymbol (.named 0) {})).2.phase = .aborted := by
    decide +kernel
  have hfinal : ((step refusing).apply (ofJob oneSymbol (.named 0) {})).2.finalSnapshot?.isSome
      = true := by decide +kernel
  have hfinished := (hall refusing oneSymbol (.named 0) {} _ _ (Driven.refl.step rfl)).mp
    (Option.isSome_iff_exists.mp hfinal)
  cases hphase.symm.trans hfinished

end Run

end Chronicle
