import Chronicle.Proofs.Run.Work
/-!
The stages of a step.

A step is opened, its program is performed, it is closed, and its hook is opened, performed and
closed.  Each stage takes one layout to the next: `Stands`, `AtWork`, `Stands` again with one more
node archived, `AtHook`, and `Stands` at the end.  There is one lemma for each stage, and it says
both when the stage succeeds and what it leaves.

The invariant of the whole is in the layouts: what a program schedules or has repeated comes right
behind its own step and before everything that was waiting (`closeStep_eq`), so the archived nodes
stay the beginning of the order.
-/

namespace Chronicle

/-- The snapshot that a state held by a waiting node gives to its program. -/
def SnapshotState.opens : SnapshotState → Except EngineError Snapshot
  | .pending => .error (.invalidData (.noState ⟨0⟩))
  | .live s => .ok s
  | .archived data => data.materialize

/-- The node with the record of its step. -/
def Node.recorded {P : Type} (n : Node P) (data : SnapshotData) : Node P :=
  { n with state := .archived data, status := .archived }

/-- What closing a step comes to: the data it hands on, unless it is the root and asked to be
repeated, or its state refuses to be archived. -/
def Work.closes {P : Type} (w : Work P) (first : Bool) : Except EngineError SnapshotData :=
  if w.repeats ∧ first then .error .duplicateRoot else w.snapshot.archive

namespace Run

variable {P : Type} {r : Run P} {done : List NodeId} {jobs rest : List (Job P)} {job : Job P}
  {state : SnapshotState} {w : Work P} {s : Snapshot}

theorem materialize_eq {state : SnapshotState} (hready : state ≠ .pending) :
    state.materialize = state.opens.map fun s => (some s, .live s) := by
  cases state with
  | pending => exact absurd rfl hready
  | live s => rfl
  | archived data =>
      simp only [SnapshotState.materialize, SnapshotState.opens]
      cases data.materialize <;> rfl

/-- Materializing a state in place succeeds exactly if the state opens. -/
theorem materializeIn_eq {place : Workplace} (hstate : r.stateIn place = state)
    (hready : state ≠ .pending) :
    (∀ s, state.opens = .ok s →
      (materializeIn place).apply r = (.ok (some s), r.putState place (.live s))) ∧
    ∀ e, state.opens = .error e → (materializeIn place).apply r = (.error e, r) := by
  refine ⟨fun s hopens => ?_, fun e hopens => ?_⟩
  · rw [materializeIn, Edit.apply_atomic, hstate, materialize_eq hready, hopens]
    rfl
  · rw [materializeIn, Edit.apply_atomic, hstate, materialize_eq hready, hopens]
    rfl

/-! ### Opening -/

/-- The current node, of a run whose next step can be opened. -/
theorem Stands.current_eq (h : r.Stands done (job :: rest) state) :
    ∃ f ids n, r.timeline.Shape f ∧ f.order = done ++ r.current :: ids ∧
      r.timeline.node? r.current = some n ∧ r.timeline.Awaits r.current job state ∧
      n.state = state ∧ r.timeline.Queue ids rest ∧ r.final = .pending := by
  obtain ⟨⟨f, ids, hshape, horder, hfront⟩, -, -⟩ := h
  cases hfront with
  | @next ids _ _ _ final current queue =>
      obtain ⟨n, hn, hcore⟩ := Option.map_eq_some_iff.mp current.1
      have hstate : n.state = state := congrArg Node.state hcore
      exact ⟨f, ids, n, hshape, horder, hn, current, hstate, queue, final⟩

/-- The run whose current step begins with the given label and state. -/
def begun (r : Run P) (label : Label) (s : Snapshot) : Run P :=
  { r.modifyNode r.current ({ · with label, state := .live s, status := .running }) with
    phase := .running }

theorem Stands.begun (h : r.Stands done (job :: rest) state) (label : Label) (s : Snapshot) :
    (r.begun label s).AtWork done rest (.begun job label s) ∧ Keeps done r (r.begun label s) := by
  obtain ⟨f, ids, n, hshape, horder, -, hawaits, -, hqueue, hfinal⟩ := h.current_eq
  have hnodup := hshape.nodup
  rw [horder, List.nodup_append] at hnodup
  have hnotDone : ∀ id ∈ done, id ≠ r.current := by
    intro id hid heq
    subst heq
    exact hnodup.2.2 _ hid _ List.mem_cons_self rfl
  have hnotBehind : ∀ id ∈ ids, id ≠ r.current := by
    intro id hid heq
    subst heq
    exact (List.nodup_cons.mp hnodup.2.1).1 hid
  have hcore : ∀ id, (r.begun label s).timeline.core? id = if id = r.current
      then (r.timeline.core? id).map ({ · with label, state := .live s, status := .running })
      else r.timeline.core? id :=
    fun id => Timeline.core?_modify _ _ _ _ _ fun _ => rfl
  have hkept : ∀ id, id ≠ r.current →
      (r.begun label s).timeline.core? id = r.timeline.core? id :=
    fun id hid => (hcore id).trans (if_neg hid)
  have hlinks : ∀ id, (r.begun label s).timeline.place? id = r.timeline.place? id :=
    fun id => Timeline.place?_modify_of_place _ _ _ _ fun _ => rfl
  refine ⟨⟨rfl, ⟨hfinal, ⟨f, [], ids, hshape.modify _ fun _ => rfl, horder, ?_, .nil, ?_⟩, ?_⟩, ?_⟩,
    rfl, rfl, rfl, fun id hid => hkept id (hnotDone id hid)⟩
  · show (f.under r.current).order = []
    rw [hawaits.under_eq_nil hshape]
    rfl
  · exact hqueue.frame (fun id hid => hkept id (hnotBehind id hid)) fun id _ => by rw [hlinks]
  · exact fun id hid => (h.past id hid).frame (hkept id (hnotDone id hid))
  · show Timeline.core? _ r.current = _
    rw [hcore, if_pos rfl, hawaits.1]
    rfl

/-- The label that the current step gets from its position. -/
def nextLabel (r : Run P) : Label :=
  (r.timeline.node? r.current).elim .root r.timeline.positionOf

/-- The first stage succeeds exactly if the state opens, and then the program begins. -/
theorem Stands.openStep_eq (h : r.Stands done (job :: rest) state) :
    (∀ s, state.opens = .ok s →
      openStep.apply r = (.ok r.nextLabel, r.begun r.nextLabel s)) ∧
    ∀ e, state.opens = .error e → openStep.apply r
      = (.error e, r.modifyNode r.current ({ · with label := r.nextLabel })) := by
  obtain ⟨-, -, n, -, -, hn, -, hstate, -⟩ := h.current_eq
  unfold openStep
  rw [Edit.apply_bind_of_ok (Edit.apply_get r)]
  dsimp only
  -- The label is set first, and does not touch the state.
  generalize hlabelling : Edit.atomic _ = labelling
  have hassign : labelling.apply r
      = (.ok r.nextLabel, r.modifyNode r.current ({ · with label := r.nextLabel })) := by
    rw [← hlabelling, Edit.apply_atomic]
    simp only [Timeline.assignLabel, Timeline.node_eq_ok.mpr hn, bind, Except.bind, pure,
      Except.pure, modifyNode, nextLabel, hn, Option.elim]
  generalize r.nextLabel = label at hassign
  have hstateIn :
      (r.modifyNode r.current ({ · with label })).stateIn (.node r.current) = state := by
    simp [stateIn, modifyNode, Timeline.node?_modify, hn, hstate]
  obtain ⟨hok, herror⟩ := materializeIn_eq hstateIn h.ready
  rw [Edit.apply_bind_of_ok hassign]
  refine ⟨fun s hopens => ?_, fun e hopens => Edit.apply_bind_of_error (herror e hopens) _⟩
  rw [Edit.apply_bind_of_ok (hok s hopens), if_neg (by simp), setPhase,
    Edit.apply_bind_of_ok (Edit.apply_modify _ _), Edit.apply_bind_of_ok (Edit.apply_modify _ _),
    Edit.apply_pure]
  simp only [modifyNode, putState, Timeline.modify_modify]
  rfl

/-! ### Closing -/

/-- The layout of a run between the record of a step and the state for whatever follows. -/
structure Rests (r : Run P) (done ids : List NodeId) (jobs : List (Job P)) : Prop where
  final : r.final = .pending
  layout : ∃ f, r.timeline.Shape f ∧ f.order = done ++ ids
  queue : r.timeline.Queue ids jobs
  past : ∀ q ∈ done, r.timeline.Past q

/-- With its record the node of the step joins the archived ones. -/
theorem Ended.record {id : NodeId} (h : r.Ended done id jobs) (data : SnapshotData) :
    ∃ ids, Rests (r.modifyNode id (·.recorded data)) (done ++ [id]) ids jobs ∧
      (r.modifyNode id (·.recorded data)).timeline.after id = ids.head? ∧
      (∀ q ∈ done, (r.modifyNode id (·.recorded data)).timeline.core? q = r.timeline.core? q) ∧
      (r.modifyNode id (·.recorded data)).timeline.core? id
        = (r.timeline.core? id).map (·.recorded data) := by
  obtain ⟨hfinal, ⟨f, ids, hshape, horder, hqueue⟩, hpast⟩ := h
  have hnodup := hshape.nodup
  rw [horder, List.nodup_append] at hnodup
  have hnotDone : ∀ q ∈ done, q ≠ id := by
    intro q hq heq
    subst heq
    exact hnodup.2.2 _ hq _ List.mem_cons_self rfl
  have hnotBehind : ∀ q ∈ ids, q ≠ id := by
    intro q hq heq
    subst heq
    exact (List.nodup_cons.mp hnodup.2.1).1 hq
  have hshape' : (r.modifyNode id (·.recorded data)).timeline.Shape f :=
    hshape.modify id fun _ => rfl
  have hcore : (r.modifyNode id (·.recorded data)).timeline.core? id
      = (r.timeline.core? id).map (·.recorded data) :=
    (Timeline.core?_modify _ _ _ (·.recorded data) (·.recorded data) fun _ => rfl).trans
      (if_pos rfl)
  have hkept : ∀ q, q ≠ id →
      (r.modifyNode id (·.recorded data)).timeline.core? q = r.timeline.core? q :=
    fun q hq => Timeline.core?_modify_of_ne _ _ hq
  have hlinks : ∀ q, (r.modifyNode id (·.recorded data)).timeline.place? q = r.timeline.place? q :=
    fun q => Timeline.place?_modify_of_place _ _ _ _ fun _ => rfl
  refine ⟨ids, ⟨hfinal, ⟨f, hshape', by simp [horder]⟩, ?_, ?_⟩, hshape'.after_eq horder,
    fun q hq => hkept q (hnotDone q hq), hcore⟩
  · exact hqueue.frame (fun q hq => hkept q (hnotBehind q hq)) fun q _ => by rw [hlinks]
  · intro q hq
    rcases List.mem_append.mp hq with hq | hq
    · exact (hpast q hq).frame (hkept q (hnotDone q hq))
    · rw [List.mem_singleton.mp hq]
      obtain ⟨n, hn⟩ := hshape.mem_iff.mp (by simp [horder] : id ∈ f.order)
      refine ⟨n.unlinked.recorded data, data, ?_, rfl, rfl⟩
      rw [hcore, Timeline.core?, hn]
      rfl

/-- The last step hands its state on to the end of the run. -/
theorem Rests.last (h : r.Rests done [] jobs) (data : SnapshotData) :
    jobs = [] ∧ (r.putState .final (.archived data)).Stands done [] (.archived data) := by
  obtain ⟨-, ⟨f, hshape, horder⟩, hqueue, hpast⟩ := h
  cases hqueue
  exact ⟨rfl, ⟨f, [], hshape, horder, .last rfl⟩, hpast, by simp⟩

/-- Any other step hands its state on to the next node. -/
theorem Rests.next {next : NodeId} {ids : List NodeId} (h : r.Rests done (next :: ids) jobs)
    (data : SnapshotData) :
    jobs ≠ [] ∧
      Stands { r.putState (.node next) (.archived data) with current := next } done jobs
        (.archived data) ∧
      ∀ q ∈ done,
        (r.putState (.node next) (.archived data)).timeline.core? q = r.timeline.core? q := by
  obtain ⟨hfinal, ⟨f, hshape, horder⟩, hqueue, hpast⟩ := h
  have hnodup := hshape.nodup
  rw [horder, List.nodup_append] at hnodup
  have hnotDone : ∀ q ∈ done, q ≠ next := by
    intro q hq heq
    subst heq
    exact hnodup.2.2 _ hq _ List.mem_cons_self rfl
  have hnotBehind : ∀ q ∈ ids, q ≠ next := by
    intro q hq heq
    subst heq
    exact (List.nodup_cons.mp hnodup.2.1).1 hq
  have hkept : ∀ q, q ≠ next →
      (r.putState (.node next) (.archived data)).timeline.core? q = r.timeline.core? q :=
    fun q hq => Timeline.core?_modify_of_ne _ _ hq
  have hlinks : ∀ q,
      (r.putState (.node next) (.archived data)).timeline.place? q = r.timeline.place? q :=
    fun q => Timeline.place?_modify_of_place _ _ _ _ fun _ => rfl
  cases hqueue with
  | @cons _ job _ jobs hnext hrest =>
      refine ⟨by simp, ⟨⟨f, next :: ids, hshape.modify _ fun _ => rfl, horder, ?_⟩, ?_, by simp⟩,
        fun q hq => hkept q (hnotDone q hq)⟩
      · have hawaits : (r.putState (.node next) (.archived data)).timeline.Awaits next job
            (.archived data) := by
          refine ⟨?_, by rw [hlinks]; exact hnext.2⟩
          refine (Timeline.core?_modify _ _ _ _ ({ · with state := .archived data })
            fun _ => rfl).trans ?_
          rw [if_pos rfl, hnext.1]
          rfl
        refine .next hfinal hawaits (Timeline.Queue.frame hrest ?_ fun q _ => by rw [← hlinks])
        exact fun q hq => hkept q (hnotBehind q hq)
      · exact fun q hq => (hpast q hq).frame (hkept q (hnotDone q hq))

/-- The last part of closing a step: its record, and the state for whatever follows. -/
theorem Ended.recordAndHandOver_eq {id : NodeId} (h : r.Ended done id jobs) (s : Snapshot) :
    match s.archive with
    | .error e => ∃ r', (recordAndHandOver id s).apply r = (.error e, r') ∧ r'.final = .pending ∧
        r'.timeline.core? id = (r.timeline.core? id).map (·.recorded s.toData)
    | .ok data => ∃ r', (recordAndHandOver id s).apply r = (.ok !jobs.isEmpty, r') ∧
        r'.Stands (done ++ [id]) jobs (.archived data) ∧
        r'.phase = r.phase ∧ r'.steps = r.steps ∧ r'.events = r.events ∧
        (∀ q ∈ done, r'.timeline.core? q = r.timeline.core? q) ∧
        r'.timeline.core? id = (r.timeline.core? id).map (·.recorded s.toData) := by
  obtain ⟨ids, hrests, hafter, hkept, hcore⟩ := h.record s.toData
  have hrecord : Edit.apply (modify (·.modifyNode id
      ({ · with state := .archived s.toData, status := .archived })) : Edit (Run P) Unit) r
      = (.ok (), r.modifyNode id (·.recorded s.toData)) := rfl
  unfold recordAndHandOver
  rw [Edit.apply_bind_of_ok hrecord]
  cases harchive : s.archive with
  | error e => exact ⟨_, Edit.apply_bind_of_error (Edit.apply_ofExcept _ _) _, h.final, hcore⟩
  | ok data =>
      rw [Edit.apply_bind_of_ok (Edit.apply_ofExcept _ _), Edit.apply_bind_of_ok (Edit.apply_get _),
        hafter]
      cases ids with
      | nil =>
          obtain ⟨rfl, hstands⟩ := hrests.last data
          exact ⟨_, rfl, hstands, rfl, rfl, rfl, hkept, hcore⟩
      | cons next ids =>
          obtain ⟨hjobs, hstands, hkept'⟩ := hrests.next data
          refine ⟨_, ?_, hstands, rfl, rfl, rfl, ?_, ?_⟩
          · rw [List.isEmpty_eq_false_iff.mpr hjobs]
            rfl
          · exact fun q hq => (hkept' q (by simp [hq])).trans (hkept q hq)
          · exact (hkept' id (by simp)).trans hcore

/-- The state is taken out of the node of a step whose program is done. -/
theorem AtWork.takeState_eq (h : r.AtWork done rest w) :
    ∃ r', (takeState r.current).apply { r with phase := .idle } = (.ok w.snapshot, r') ∧
      r'.Underway done r.current w.scheduled rest ∧
      r'.phase = .idle ∧ r'.steps = r.steps ∧ r'.events = r.events ∧
      (∀ q ∈ done, r'.timeline.core? q = r.timeline.core? q) ∧
      r'.timeline.core? r.current = some { w.node with state := .pending } := by
  obtain ⟨n, hn, hnode⟩ := h.currentNode_eq
  have hstate : n.state = .live w.snapshot := congrArg Node.state hnode
  have hunderway : Underway { r with phase := .idle } done r.current w.scheduled rest :=
    h.underway.congr rfl rfl
  refine ⟨Run.putState { r with phase := .idle } (.node r.current) .pending, ?_,
    hunderway.modify fun _ => rfl, rfl, rfl, rfl, ?_, ?_⟩
  · unfold takeState
    rw [Edit.apply_bind_of_ok (Edit.apply_get _), Edit.apply_bind_of_ok (Edit.apply_modify _ _)]
    simp only [stateIn, hn, Option.map_some, Option.getD_some, hstate]
    rfl
  · exact fun q hq => Timeline.core?_modify_of_ne _ _ (h.underway.ne hq)
  · refine (Timeline.core?_modify _ _ _ _ ({ · with state := .pending }) fun _ => rfl).trans ?_
    rw [if_pos rfl, show Timeline.core? _ r.current = _ from h.current]
    rfl

/-- The copy for a repetition, if the step asked for one; the root cannot have one. -/
theorem Underway.duplicateNode_eq {id : NodeId} {scheduled : List (Job P)} {n : Node (Job P)}
    (h : r.Underway done id scheduled rest) (hn : r.timeline.core? id = some n) (repeats : Bool) :
    if repeats ∧ done = [] then
      (if repeats then duplicateNode id else pure ()).apply r = (.error .duplicateRoot, r)
    else ∃ r', (if repeats then duplicateNode id else pure ()).apply r = (.ok (), r') ∧
      r'.Ended done id (scheduled ++ (if repeats then [n.program] else []) ++ rest) ∧
      r'.phase = r.phase ∧ r'.steps = r.steps ∧ r'.events = r.events ∧
      ∀ q ∈ id :: done, r'.timeline.core? q = r.timeline.core? q := by
  cases repeats with
  | false =>
      rw [if_neg (by simp)]
      refine ⟨r, rfl, ?_, rfl, rfl, rfl, fun _ _ => rfl⟩
      simpa using h.ended
  | true =>
      by_cases hdone : done = []
      · subst hdone
        rw [if_pos ⟨rfl, rfl⟩, if_pos rfl, duplicateNode, Edit.apply_atomic, h.duplicate_root]
        rfl
      · rw [if_neg (by simp [hdone])]
        obtain ⟨source, hsource, hcore⟩ := Option.map_eq_some_iff.mp hn
        obtain ⟨t', hdup, hended, hkept⟩ := h.duplicate hdone hsource
        refine ⟨{ r with timeline := t' }, ?_, ?_, rfl, rfl, rfl, hkept⟩
        · rw [if_pos rfl, duplicateNode, Edit.apply_atomic, hdup]
          rfl
        · have hprogram : source.program = n.program := by
            rw [← hcore]
            rfl
          simpa [hprogram] using hended

/-- The third stage: behind the step come those it scheduled, then its copy, then the others.  The
record is there even if the state is then refused by the archive, but not if the root asked to be
repeated: then the state was taken out of its node by the time that is refused. -/
theorem AtWork.closeStep_eq (h : r.AtWork done rest w) :
    match w.closes done.isEmpty with
    | .error e => ∃ r', (closeStep r.current).apply r = (.error e, r') ∧ r'.final = .pending ∧
        r'.timeline.core? r.current = some (if w.repeats ∧ done.isEmpty
          then { w.node with state := .pending } else w.node.recorded w.snapshot.toData)
    | .ok data => ∃ n r',
        (closeStep r.current).apply r = (.ok (n, !(w.next ++ rest).isEmpty), r') ∧
        n.unlinked = w.node ∧
        r'.Stands (done ++ [r.current]) (w.next ++ rest) (.archived data) ∧
        r'.phase = .idle ∧ r'.steps = r.steps ∧ r'.events = r.events ∧
        (∀ q ∈ done, r'.timeline.core? q = r.timeline.core? q) ∧
        r'.timeline.core? r.current = some (w.node.recorded w.snapshot.toData) := by
  obtain ⟨n, hn, hnode⟩ := h.currentNode_eq
  have hrepeats : n.repeats = w.repeats := congrArg Node.repeats hnode
  obtain ⟨r₁, htake, hunderway, hphase, hsteps, hevents, hkept, hcore⟩ := h.takeState_eq
  have hdup := hunderway.duplicateNode_eq hcore n.repeats
  have hnext : w.scheduled ++ (if n.repeats then [w.job] else []) ++ rest = w.next ++ rest := by
    rw [hrepeats]
    rfl
  have hnode' : (Edit.ofExcept (r.timeline.node r.current)).apply { r with phase := .idle }
      = (.ok n, { r with phase := .idle }) := by
    rw [Edit.apply_ofExcept, Timeline.node_eq_ok.mpr hn]
  unfold closeStep
  rw [setPhase, Edit.apply_bind_of_ok (Edit.apply_modify _ _),
    Edit.apply_bind_of_ok (Edit.apply_get _), Edit.apply_bind_of_ok hnode',
    Edit.apply_bind_of_ok htake]
  dsimp only
  rw [Edit.ite_bind]
  by_cases hroot : n.repeats ∧ done = []
  · rw [if_pos hroot] at hdup
    have hroot' : w.repeats ∧ done.isEmpty := by simpa [← hrepeats] using hroot
    rw [Work.closes, if_pos hroot']
    refine ⟨_, Edit.apply_bind_of_error hdup _, hunderway.final, ?_⟩
    rw [if_pos hroot', hcore]
  · rw [if_neg hroot] at hdup
    obtain ⟨r₂, hdup, hended, hphase₂, hsteps₂, hevents₂, hkept₂⟩ := hdup
    replace hended : r₂.Ended done r.current (w.next ++ rest) := by
      rw [← hnext]
      exact hended
    have hrecord := hended.recordAndHandOver_eq w.snapshot
    have hroot' : ¬(w.repeats ∧ done.isEmpty) := by simpa [← hrepeats] using hroot
    rw [Edit.apply_bind_of_ok hdup, Work.closes, if_neg hroot']
    cases harchive : w.snapshot.archive with
    | error e =>
        rw [harchive] at hrecord
        obtain ⟨r₃, hrecord, hfinal₃, hcore₃⟩ := hrecord
        refine ⟨r₃, Edit.apply_bind_of_error hrecord _, hfinal₃, ?_⟩
        rw [if_neg hroot', hcore₃, hkept₂ _ List.mem_cons_self, hcore]
        rfl
    | ok data =>
        rw [harchive] at hrecord
        obtain ⟨r₃, hrecord, hstands, hphase₃, hsteps₃, hevents₃, hkept₃, hcore₃⟩ := hrecord
        refine ⟨n, r₃, ?_, hnode, hstands, ?_, ?_, ?_, fun q hq => ?_, ?_⟩
        · rw [Edit.apply_bind_of_ok hrecord]
          rfl
        · rw [hphase₃, hphase₂, hphase]
        · rw [hsteps₃, hsteps₂, hsteps]
        · rw [hevents₃, hevents₂, hevents]
        · rw [hkept₃ q hq, hkept₂ q (List.mem_cons_of_mem _ hq), hkept q hq]
        · rw [hcore₃, hkept₂ _ List.mem_cons_self, hcore]
          rfl

/-! ### The hook -/

/-- Before a hook begins the state that was handed on is made live, where it is. -/
theorem Stands.openHook_eq (h : r.Stands done jobs state) :
    (∀ s, state.opens = .ok s →
      ∃ r', openHook.apply r = (.ok (), r') ∧ r'.AtHook done jobs s ∧ Keeps done r r') ∧
    ∀ e, state.opens = .error e →
      openHook.apply r = (.error e, { r with phase := .hook }) := by
  have hstands : Stands { r with phase := .hook } done jobs state := h.congr rfl rfl rfl
  obtain ⟨place, hplace, hstate, hput⟩ := hstands.exists_workplace
  obtain ⟨hok, herror⟩ := materializeIn_eq hstate h.ready
  unfold openHook
  rw [setPhase, Edit.apply_bind_of_ok (Edit.apply_modify _ _),
    Edit.apply_bind_of_ok (Edit.apply_get _), hplace rfl]
  refine ⟨fun s hopens => ?_, fun e hopens => Edit.apply_bind_of_error (herror e hopens) _⟩
  obtain ⟨hstands', hcurrent, -, hkept⟩ := hput (.live s) (by simp)
  refine ⟨_, Edit.apply_bind_of_ok (hok s hopens) _, ⟨?_, hstands'⟩, hcurrent, ?_, ?_, hkept⟩
  · cases place <;> rfl
  · cases place <;> rfl
  · cases place <;> rfl

/-- After a hook the next step finds the state live, and the end of the run finds it archived. -/
theorem AtHook.closeHook_eq (h : r.AtHook done jobs s) :
    ∃ r', closeHook.apply r = (.ok (), r') ∧ r'.phase = .idle ∧
      r'.Stands done jobs (if jobs = [] then .archived s.toData else .live s) ∧
      Keeps done r r' := by
  obtain ⟨⟨f, ids, hshape, horder, hfront⟩, hpast, -⟩ := h.stands
  cases hfront with
  | @next ids _ _ _ final current queue =>
      refine ⟨{ r with phase := .idle }, ?_, rfl, ?_, rfl, rfl, rfl, fun _ _ => rfl⟩
      · unfold closeHook
        rw [setPhase, Edit.apply_bind_of_ok (Edit.apply_modify _ _), Edit.apply_modify]
        simp only [final]
      · rw [if_neg (by simp)]
        exact h.stands.congr rfl rfl rfl
  | last final =>
      refine ⟨{ r with phase := .idle, final := .archived s.toData }, ?_, rfl, ?_, rfl, rfl, rfl,
        fun _ _ => rfl⟩
      · unfold closeHook
        rw [setPhase, Edit.apply_bind_of_ok (Edit.apply_modify _ _), Edit.apply_modify]
        simp only [final]
      · rw [if_pos rfl]
        exact ⟨⟨f, [], hshape, horder, .last rfl⟩, hpast, by simp⟩

end Run

end Chronicle
