import Chronicle.Proofs.Run.Moments
import Chronicle.Proofs.Timeline.Archived
/-!
What a step does to the records that are there.

Programs and hooks write to the state at work, and the run moves states about when it closes a
step.  None of this reaches an archived node.  While a program is at work the state at work is that
of the current node, whose record is yet to come (`Open`).  When the state was handed on, it is
that of the next node, which waits, or the one at the end of the run (`Passed`): a last step leaves
the current node as it is, but then the end of the run holds a state, and that is where its hook
works.

Each stage is taken through these conditions once more, now with the timeline that it began with
beside it: `Since t p r` says that `p` holds of `r` and that `r` has all that `t` has archived.
-/

namespace Chronicle

namespace Run

variable {P α β : Type} {library : Library P} {r r' : Run P} {id : NodeId} {more : Bool}
  {t : Timeline (Job P)} {p q : Run P → Prop}

/-- The step of `id` is under way, and it has no record yet. -/
structure Open (id : NodeId) (r : Run P) : Prop where
  begun : r.Begun id
  unarchived : ¬r.timeline.IsArchived id
  recorded : r.timeline.Recorded

/-- The state of the step was handed on, to the next node or to the end of the run. -/
structure Passed (more : Bool) (r : Run P) : Prop where
  handed : r.Handed more
  final : more = false → r.final ≠ .pending
  recorded : r.timeline.Recorded

/-- `p` holds of the run, and it has all that `t` has archived. -/
def Since (t : Timeline (Job P)) (p : Run P → Prop) (r : Run P) : Prop :=
  p r ∧ t.Retains r.timeline

/-- The run has all that `t` has archived. -/
def Has (t : Timeline (Job P)) (r : Run P) : Prop := t.Retains r.timeline

theorem Since.has (h : Since t p r) : Has t r := h.2

theorem Since.next (h : Since t p r) (hnext : p r → Since r.timeline q r') : Since t q r' :=
  ⟨(hnext h.1).1, h.2.trans (hnext h.1).2⟩

/-! ### While a program is at work -/

/-- The node of the step under way can be changed in all but its links and its label. -/
theorem Open.modifyNode (h : r.Open id) {g : Node (Job P) → Node (Job P)}
    (hplace : ∀ n, (g n).place = n.place) (hlabel : ∀ n, (g n).label = n.label)
    (hstatus : ∀ n, n.status ≠ .archived → (g n).status ≠ .archived) :
    Since r.timeline (Open id) (r.modifyNode id g) := by
  obtain ⟨-, begun, rest, hlabelled⟩ := h.begun
  obtain ⟨f, hshape⟩ := hlabelled.exists_shape
  have hretains : r.timeline.Retains (r.modifyNode id g).timeline :=
    h.recorded.modify hshape h.unarchived hplace fun n hn hc => absurd hc (hstatus n hn)
  refine ⟨⟨h.begun.modifyNode hplace hlabel, fun hid => ?_, hretains.recorded⟩, hretains⟩
  obtain ⟨n, hn, harchived⟩ := Timeline.isArchived_iff.mp hid
  rw [Run.modifyNode, Timeline.node?_modify, if_pos rfl] at hn
  obtain ⟨m, hm, rfl⟩ := Option.map_eq_some_iff.mp hn
  exact hstatus m (fun hc => h.unarchived (Timeline.isArchived_iff.mpr ⟨m, hm, hc⟩)) harchived

/-- The timeline can grow behind the node of the step under way. -/
theorem Open.grown (h : r.Open id) {timeline : Timeline (Job P)}
    (hbegun : Begun id { r with timeline }) (hretains : r.timeline.Retains timeline)
    (hcore : timeline.core? id = r.timeline.core? id) :
    Since r.timeline (Open id) { r with timeline } :=
  ⟨⟨hbegun, fun hid => h.unarchived (hid.frame hcore.symm), hretains.recorded⟩, hretains⟩

theorem Open.adopt (h : r.Open id) {job : Job P} {child : NodeId} {timeline : Timeline (Job P)}
    (hadopt : r.timeline.adopt id job = .ok (child, timeline)) :
    Since r.timeline (Open id) { r with timeline } := by
  obtain ⟨hcurrent, begun, rest, hlabelled⟩ := h.begun
  obtain ⟨rest', hlabelled'⟩ := hlabelled.adopt job hadopt
  refine h.grown ⟨hcurrent, begun, rest', hlabelled'⟩ (h.recorded.adopt hlabelled hadopt) ?_
  exact (Timeline.grownBy_adopt hadopt).1.kept id (hlabelled.lt_size (by simp))

theorem Open.duplicate (h : r.Open id) {copy : NodeId} {timeline : Timeline (Job P)}
    (hduplicate : r.timeline.duplicate id = .ok (copy, timeline)) :
    Since r.timeline (Open id) { r with timeline } := by
  obtain ⟨hcurrent, begun, rest, hlabelled⟩ := h.begun
  obtain ⟨rest', hlabelled'⟩ := hlabelled.duplicate hduplicate
  refine h.grown ⟨hcurrent, begun, rest', hlabelled'⟩ (h.recorded.duplicate hlabelled hduplicate) ?_
  obtain ⟨source, parent, -, -, hgrown, -⟩ := Timeline.grownBy_duplicate hduplicate
  exact hgrown.kept id (hlabelled.lt_size (by simp))

/-- Whatever a program asks for, its step has no record yet, and the records that are there stay. -/
theorem Open.writes (h : r.Open id) (hphase : r.phase = .running) (hwrites : r.Writes r') :
    Since r.timeline (fun r => r.Open id ∧ r.phase = .running) r' := by
  have hcurrent := h.begun.1
  subst hcurrent
  cases hwrites with
  | aside scratch notes =>
      exact ⟨⟨⟨h.begun, h.unarchived, h.recorded⟩, hphase⟩, h.recorded.refl⟩
  | @state place work snapshot scratch =>
      have hplace : place = .node r.current := by simpa [workplace?, hphase] using work.symm
      subst hplace
      obtain ⟨hopen, hretains⟩ :=
        h.modifyNode (g := ({ · with state := .live snapshot })) (fun _ => rfl) (fun _ => rfl)
          fun _ hn => hn
      exact ⟨⟨⟨hopen.begun, hopen.unarchived, hopen.recorded⟩, hphase⟩, hretains⟩
  | node running g place label status =>
      obtain ⟨hopen, hretains⟩ := h.modifyNode place label fun n hn => by rwa [status n]
      exact ⟨⟨hopen, hphase⟩, hretains⟩
  | child running adopted =>
      obtain ⟨hopen, hretains⟩ := h.adopt adopted
      exact ⟨⟨hopen, hphase⟩, hretains⟩

/-! ### While a hook is at work -/

/-- Of the nodes only a waiting one has the state that a hook works on. -/
theorem Passed.not_isArchived (h : r.Passed more) (hphase : r.phase = .hook)
    (hplace : r.workplace? = some (.node id)) : ¬r.timeline.IsArchived id := by
  rw [workplace?, hphase] at hplace
  dsimp only at hplace
  split at hplace
  · next hfinal =>
      cases hplace
      cases more with
      | true =>
          obtain ⟨id, rfl, begun, rest, hlabelled⟩ := h.handed
          exact hlabelled.not_isArchived
      | false => exact absurd hfinal (h.final rfl)
  · cases hplace

/-- The state at work of a hook can be exchanged. -/
theorem Passed.putState (h : r.Passed more) (hphase : r.phase = .hook) {place : Workplace}
    (hplace : r.workplace? = some place) {state : SnapshotState}
    (hstate : place = .final → state ≠ .pending) :
    Since r.timeline (fun r => r.Passed more ∧ r.phase = .hook) (r.putState place state) := by
  have hhanded := h.handed.putState place state
  cases place with
  | node id =>
      obtain ⟨begun, rest, hlabelled⟩ := h.handed.marked
      obtain ⟨f, hshape⟩ := hlabelled.exists_shape
      have hretains := h.recorded.modify hshape (h.not_isArchived hphase hplace)
        (g := ({ · with state })) (fun _ => rfl) fun _ hn hc => absurd hc hn
      exact ⟨⟨⟨hhanded, h.final, hretains.recorded⟩, hphase⟩, hretains⟩
  | final => exact ⟨⟨⟨hhanded, fun _ => hstate rfl, h.recorded⟩, hphase⟩, h.recorded.refl⟩

/-- Whatever a hook asks for, the records stay. -/
theorem Passed.writes (h : r.Passed more) (hphase : r.phase = .hook) (hwrites : r.Writes r') :
    Since r.timeline (fun r => r.Passed more ∧ r.phase = .hook) r' := by
  cases hwrites with
  | aside scratch notes =>
      exact ⟨⟨⟨h.handed, h.final, h.recorded⟩, hphase⟩, h.recorded.refl⟩
  | state work snapshot scratch =>
      obtain ⟨⟨hpassed, hphase'⟩, hretains⟩ :
          Since r.timeline (fun r => r.Passed more ∧ r.phase = .hook)
            (r.putState _ (.live snapshot)) :=
        h.putState hphase work fun _ hc => by cases hc
      exact ⟨⟨⟨hpassed.handed, hpassed.final, hpassed.recorded⟩, hphase'⟩, hretains⟩
  | node running => simp [hphase] at running
  | child running => simp [hphase] at running

/-! ### The stages of a step -/

theorem materializeIn_keeps (place : Workplace)
    (hput : ∀ r state, p r → (r.stateIn place ≠ .pending → state ≠ .pending) →
      Since r.timeline p (r.putState place state)) :
    Edit.Leads (Since t p) (materializeIn place) (fun _ => Since t p) (Has t) := by
  refine .atomic (fun r a next hr heq => ?_) fun r hr => hr.has
  obtain ⟨⟨snapshot, state⟩, hstate, heq⟩ := exists_of_bind_eq_ok heq
  obtain ⟨-, rfl⟩ := Prod.mk.inj (Except.ok.inj heq)
  refine hr.next fun hp => hput r state hp fun hne => ?_
  cases hin : r.stateIn place with
  | pending => exact absurd hin hne
  | live snapshot =>
      rw [hin] at hstate
      cases hstate
      simp
  | archived data =>
      rw [hin] at hstate
      obtain ⟨snapshot, -, hanswer⟩ := exists_of_bind_eq_ok hstate
      cases hanswer
      simp

/-- The requests of a script keep what each of them keeps. -/
theorem performScript_keeps
    (hkept : ∀ β (request : Request P β) r, p r →
      Since r.timeline p (answer .refused β request r).2) (script : Script P α) :
    Edit.Leads (Since t p) (performScript .refused script) (fun _ => Since t p) (Has t) :=
  performScript_leads (Since t p) (fun β request r hr => hr.next (hkept β request r)) script
    fun _ hr => hr.has

theorem open_answer (request : Request P β) (h : r.Open id ∧ r.phase = .running) :
    Since r.timeline (fun r => r.Open id ∧ r.phase = .running) (answer .refused β request r).2 :=
  h.1.writes h.2 (answer_writes (by simp [h.2]) request)

theorem passed_answer (request : Request P β) (h : r.Passed more ∧ r.phase = .hook) :
    Since r.timeline (fun r => r.Passed more ∧ r.phase = .hook) (answer .refused β request r).2 :=
  h.1.writes h.2 (answer_writes (by simp [h.2]) request)

/-- The next node has no record yet. -/
theorem Next.isOpen (h : r.Next id) (hrecorded : r.timeline.Recorded) {n : Node (Job P)}
    (hn : r.timeline.node? id = some n) :
    Since r.timeline (Open id)
      { r with
        timeline := r.timeline.modify id ({ · with label := r.timeline.positionOf n }) } := by
  obtain ⟨hcurrent, begun, rest, hlabelled⟩ := h
  have hlabelled' := hlabelled.assign hn
  obtain ⟨f, hshape⟩ := hlabelled.exists_shape
  have hid := hlabelled.not_isArchived
  have hretains := hrecorded.modify hshape hid
    (g := ({ · with label := r.timeline.positionOf n })) (fun _ => rfl) fun _ hn hc => absurd hc hn
  refine ⟨⟨⟨hcurrent, begun, rest, hlabelled'⟩, fun hc => ?_, hretains.recorded⟩, hretains⟩
  obtain ⟨m, hm, hstatus⟩ := Timeline.isArchived_iff.mp hc
  rw [Timeline.node?_modify, if_pos rfl] at hm
  obtain ⟨old, hold, rfl⟩ := Option.map_eq_some_iff.mp hm
  exact hid (Timeline.isArchived_iff.mpr ⟨old, hold, hstatus⟩)

theorem openStep_keeps :
    Edit.Leads (Since t (Next id)) (openStep : Edit (Run P) Label)
      (fun _ => Since t fun r => r.Open id ∧ r.phase = .running) (Has t) := by
  unfold openStep
  refine .get fun r hnext => ?_
  have hcurrent := hnext.1.1
  rw [hcurrent]
  refine .bind (fun _ => Since t (Open id)) (.atomic ?_ ?_) fun label => ?_
  · rintro _ label next rfl heq
    obtain ⟨⟨label', timeline⟩, hassign, heq⟩ := exists_of_bind_eq_ok heq
    obtain ⟨n, hn, hassign⟩ := exists_of_bind_eq_ok hassign
    obtain ⟨-, rfl⟩ := Prod.mk.inj (Except.ok.inj heq)
    obtain ⟨-, rfl⟩ := Prod.mk.inj (Except.ok.inj hassign)
    exact hnext.next fun h => h.isOpen hnext.2.recorded (Timeline.node_eq_ok.mp hn)
  · rintro _ rfl
    exact hnext.has
  refine .bind (fun _ => Since t (Open id)) (materializeIn_keeps _ fun r state h _ =>
    ?_) fun snapshot => ?_
  · exact h.modifyNode (fun _ => rfl) (fun _ => rfl) fun _ hn => hn
  split
  · exact .throw _ fun _ h => h.has
  refine .bind (fun _ => Since t (Open id)) (.modify _ fun r h => ?_) fun _ => ?_
  · exact h.next fun hopen => hopen.modifyNode (fun _ => rfl) (fun _ => rfl) fun _ _ => by simp
  exact .bind (fun _ => Since t fun r => r.Open id ∧ r.phase = .running)
    (.modify _ fun _ h => ⟨⟨⟨h.1.begun, h.1.unarchived, h.1.recorded⟩, rfl⟩, h.2⟩)
    fun _ => .pure _ fun _ h => h

theorem performCurrent_keeps (library : Library P) :
    Edit.Leads (Since t fun r => r.Open id ∧ r.phase = .running) (performCurrent library)
      (fun _ => Since t fun r => r.Open id ∧ r.phase = .running) (Has t) := by
  unfold performCurrent
  refine .get fun r h => .bind (fun _ r' => r' = r) (.ofExcept ?_ ?_) fun n => ?_
  · exact fun _ _ _ heq => heq
  · rintro _ rfl
    exact h.has
  · refine (performScript_keeps (fun _ request _ => open_answer request) _).mono ?_ fun _ _ h => h
    rintro _ rfl
    exact h

theorem takeState_keeps :
    Edit.Leads (Since t (Open id)) (takeState id : Edit (Run P) Snapshot)
      (fun _ => Since t (Open id)) (Has t) := by
  unfold takeState
  refine .get fun r h => .bind (fun _ => Since t (Open id)) (.modify _ ?_) fun _ => ?_
  · rintro _ rfl
    exact h.next fun hopen => hopen.modifyNode (fun _ => rfl) (fun _ => rfl) fun _ hn => hn
  · split
    · exact .pure _ fun _ h => h
    · exact .throw _ fun _ h => h.has

theorem duplicateNode_keeps :
    Edit.Leads (Since t (Open id)) (duplicateNode id : Edit (Run P) Unit)
      (fun _ => Since t (Open id)) (Has t) := by
  refine .atomic (fun r _ next h heq => ?_) fun _ h => h.has
  obtain ⟨⟨copy, timeline⟩, hduplicate, heq⟩ := exists_of_bind_eq_ok heq
  obtain ⟨-, rfl⟩ := Prod.mk.inj (Except.ok.inj heq)
  exact h.next fun hopen => hopen.duplicate hduplicate

/-- The node whose step is under way gets its record. -/
theorem Open.record (h : r.Open id) (data : SnapshotData) :
    Since r.timeline (Begun id)
      (r.modifyNode id ({ · with state := .archived data, status := .archived })) := by
  obtain ⟨-, begun, rest, hlabelled⟩ := h.begun
  obtain ⟨f, hshape⟩ := hlabelled.exists_shape
  exact ⟨h.begun.modifyNode (fun _ => rfl) fun _ => rfl,
    h.recorded.modify hshape h.unarchived (fun _ => rfl) fun _ _ _ => ⟨data, rfl⟩⟩

/-- What is handed on goes to a node that waits, or to the end of the run. -/
theorem recordAndHandOver_keeps (live : Snapshot) :
    Edit.Leads (Since t (Open id)) (recordAndHandOver id live : Edit (Run P) Bool)
      (fun more => Since t (Passed more)) (Has t) := by
  unfold recordAndHandOver
  refine .bind (fun _ => Since t (Begun id)) (.modify _ fun r h => ?_) fun _ => ?_
  · exact h.next fun hopen => hopen.record live.toData
  refine .bind (fun _ => Since t (Begun id)) (.ofExcept (fun _ _ _ h => h) fun _ h => h.has)
    fun handover => .get fun r h => ?_
  obtain ⟨begun, rest, hlabelled, hafter⟩ := h.1.after_eq
  rw [hafter]
  cases rest with
  | nil =>
      refine .bind (fun _ => Since t (Passed false)) (.modify _ ?_) fun _ => .pure _ fun _ h => h
      rintro _ rfl
      exact ⟨⟨⟨_, _, hlabelled⟩, fun _ hc => (by cases hc), h.2.recorded⟩, h.2⟩
  | cons next rest =>
      refine .bind (fun _ => Since t (Passed true)) (.modify _ ?_) fun _ => .pure _ fun _ h => h
      rintro _ rfl
      obtain ⟨f, hshape⟩ := hlabelled.exists_shape
      have hretains := h.2.recorded.modify hshape hlabelled.not_isArchived
        (g := ({ · with state := .archived handover })) (fun _ => rfl) fun _ hn hc => absurd hc hn
      have hnext := labelled_putState hlabelled (.node next) (.archived handover)
      exact ⟨⟨⟨next, rfl, _, _, hnext⟩, fun hc => (by cases hc), hretains.recorded⟩,
        h.2.trans hretains⟩

theorem closeStep_keeps :
    Edit.Leads (Since t (Open id)) (closeStep id : Edit (Run P) (Node (Job P) × Bool))
      (fun answer => Since t (Passed answer.2)) (Has t) := by
  unfold closeStep
  refine .bind (fun _ => Since t (Open id))
    (.modify _ fun _ h => ⟨⟨h.1.begun, h.1.unarchived, h.1.recorded⟩, h.2⟩) fun _ => ?_
  refine .get fun r h => .bind (fun _ => Since t (Open id)) (.ofExcept ?_ ?_) fun n => ?_
  · rintro _ _ _ rfl
    exact h
  · rintro _ rfl
    exact h.has
  refine .bind _ takeState_keeps fun live => ?_
  have hpassed : Edit.Leads (Since t (Open id))
      (recordAndHandOver id live >>= fun more => pure (n, more) : Edit (Run P) _)
      (fun answer => Since t (Passed answer.2)) (Has t) :=
    .bind _ (recordAndHandOver_keeps live) fun more => .pure _ fun _ h => h
  split
  · exact .bind _ duplicateNode_keeps fun _ => hpassed
  · exact hpassed

theorem openHook_keeps :
    Edit.Leads (Since t (Passed more)) (openHook : Edit (Run P) Unit)
      (fun _ => Since t fun r => r.Passed more ∧ r.phase = .hook) (Has t) := by
  unfold openHook
  refine .bind (fun _ => Since t fun r => r.Passed more ∧ r.phase = .hook)
    (.modify _ fun _ h => ⟨⟨⟨h.1.handed, h.1.final, h.1.recorded⟩, rfl⟩, h.2⟩) fun _ => ?_
  refine .get fun r h => ?_
  split
  · next place hplace =>
      refine .bind (fun _ => Since t fun r => r.Passed more ∧ r.phase = .hook) ?_ fun _ =>
        .pure _ fun _ h => h
      -- The state at work stays where it is while it is made live.
      have hput := materializeIn_keeps (t := t)
        (p := fun r' => (r'.Passed more ∧ r'.phase = .hook) ∧ r'.workplace? = some place)
        place ?_
      · refine hput.mono ?_ fun _ _ h => ⟨h.1.1, h.2⟩
        rintro _ rfl
        exact ⟨⟨h.1, hplace⟩, h.2⟩
      · rintro r' state ⟨⟨hpassed, hphase⟩, hplace⟩ hstate
        have hnot : place = .final → state ≠ .pending := by
          rintro rfl
          refine hstate fun hfinal => ?_
          simp only [workplace?, hphase, stateIn] at hplace hfinal
          simp [hfinal] at hplace
        have hput := hpassed.putState hphase hplace hnot
        refine ⟨⟨hput.1, ?_⟩, hput.2⟩
        cases place with
        | node id => exact hplace
        | final => simp [workplace?, Run.putState, hphase, hnot rfl]
  · exact .pure _ fun _ heq => heq ▸ h

theorem closeHook_keeps :
    Edit.Leads (Has t) (closeHook : Edit (Run P) Unit) (fun _ => Has t) (Has t) := by
  unfold closeHook
  refine .bind (fun _ => Has t) (.modify _ fun _ h => h) fun _ => .modify _ fun r h => ?_
  split <;> exact h

theorem runHook_keeps (library : Library P) (hook : Job P) :
    Edit.Leads (Since t (Passed more)) (runHook library hook) (fun _ => Has t) (Has t) := by
  unfold runHook
  refine .bind _ openHook_keeps fun _ => ?_
  refine .bind _ (performScript_keeps (fun _ request _ => passed_answer request) _) fun _ => ?_
  exact closeHook_keeps.mono (fun _ h => h.2) fun _ _ h => h

theorem concludeStep_keeps (label : Label) (name : String) (more : Bool) :
    Edit.Leads (Has t) (concludeStep label name more : Edit (Run P) Unit) (fun _ => Has t)
      (Has t) := by
  unfold concludeStep
  refine .bind (fun _ => Has t) (.modify _ fun _ h => h) fun _ => ?_
  cases more with
  | true => exact .pure _ fun _ h => h
  | false => exact .modify _ fun _ h => h

/-- The end of a step after its hook. -/
def endStep (label : Label) (name : String) (more : Bool) : Edit (Run P) Bool := do
  concludeStep label name more
  return more

/-- What is left of a step when its state was handed on: its hook, and its end. -/
def conclude (library : Library P) (label : Label) (n : Node (Job P)) (more : Bool) :
    Edit (Run P) Bool := do
  if let some hook := n.hook then runHook library hook
  endStep label n.name more

theorem conclude_some {n : Node (Job P)} {hook : Job P} (h : n.hook = some hook)
    (library : Library P) (label : Label) (more : Bool) :
    conclude library label n more = (do
      openHook
      performScript .refused (hook.program library)
      closeHook
      endStep label n.name more) := by
  simp only [conclude, h, runHook, bind_assoc]

/-- The stages of a step. -/
theorem runCurrent_eq (library : Library P) :
    runCurrent library = (do
      let id := (← get).current
      let label ← openStep
      performCurrent library
      let closed ← closeStep id
      conclude library label closed.1 closed.2) := rfl

theorem endStep_keeps (label : Label) (name : String) (more : Bool) :
    Edit.Leads (Has t) (endStep label name more : Edit (Run P) Bool) (fun _ => Has t) (Has t) :=
  .bind _ (concludeStep_keeps label name more) fun _ => .pure _ fun _ h => h

theorem conclude_keeps (library : Library P) (label : Label) (n : Node (Job P)) :
    Edit.Leads (Since t (Passed more)) (conclude library label n more) (fun _ => Has t)
      (Has t) := by
  unfold conclude
  split
  · next hook hhook =>
      exact .bind _ (runHook_keeps library hook) fun _ => endStep_keeps label n.name more
  · exact (endStep_keeps label n.name more).mono (fun _ h => h.2) fun _ _ h => h

/-- **However a step ends, the records that were there stay.** -/
theorem runCurrent_keeps (library : Library P) :
    Edit.Leads (Since t (Next id)) (runCurrent library) (fun _ => Has t) (Has t) := by
  rw [runCurrent_eq]
  refine .get fun r h => ?_
  obtain rfl := h.1.1
  refine .bind (fun _ => Since t fun r' => r'.Open r.current ∧ r'.phase = .running)
    (openStep_keeps.mono ?_ fun _ _ h => h) fun label => ?_
  · rintro _ rfl
    exact h
  refine .bind _ (performCurrent_keeps library) fun _ => ?_
  refine .bind _ (closeStep_keeps.mono (fun _ h => ⟨h.1.1, h.2⟩) fun _ _ h => h) fun closed => ?_
  exact conclude_keeps library label closed.1

/-- All that is archived in the one run is in the other as it was. -/
def Onward (r r' : Run P) : Prop := r.timeline.Retains r'.timeline

theorem Onward.trans {r₁ r₂ r₃ : Run P} (h : Onward r₁ r₂) (h' : Onward r₂ r₃) : Onward r₁ r₃ :=
  Timeline.Retains.trans h h'

instance : IsTrans (Run P) Onward := ⟨fun _ _ _ => Onward.trans⟩

theorem Onward.of_timeline_eq (h : Onward r r') {r'' : Run P}
    (htimeline : r''.timeline = r'.timeline) : Onward r r'' := by
  rw [Onward, htimeline]
  exact h

/-- What a step has archived when it hands its state on stays to its end. -/
theorem handedOn_onward (h : Since r.timeline (Next r.current) r) {label : Label}
    (hopen : openStep.apply r = (.ok label, r.opened))
    (hperform : (performCurrent library).apply r.opened = (.ok (), r.returned library)) :
    Onward (r.handedOn library) ((runCurrent library).apply r).2 := by
  have hopened := openStep_keeps r h
  rw [hopen] at hopened
  have hreturned := performCurrent_keeps library r.opened hopened
  rw [hperform] at hreturned
  have hclosed := closeStep_keeps (r.returned library) ⟨hreturned.1.1, hreturned.2⟩
  have hrun : (runCurrent library).apply r = (closeStep r.current >>= fun closed =>
      conclude library label closed.1 closed.2).apply (r.returned library) := by
    rw [runCurrent_eq, Edit.apply_bind_of_ok (Edit.apply_get r), Edit.apply_bind_of_ok hopen,
      Edit.apply_bind_of_ok hperform]
  rw [hrun, Edit.apply_bind, handedOn]
  rcases hclose : (closeStep r.current).apply (r.returned library) with ⟨e | closed, handed⟩
  · rw [hclose] at hclosed
    exact hclosed.recorded.refl
  · rw [hclose] at hclosed
    exact (conclude_keeps library label closed.1).keeps ⟨hclosed.1, hclosed.2.recorded.refl⟩

/-- A step that fails aborts the run, and nothing else becomes of it. -/
theorem timeline_step (hidle : r.phase = .idle) (library : Library P) :
    ((step library).apply r).2.timeline = ((runCurrent library).apply r).2.timeline := by
  rw [Run.step, Edit.apply_mk, hidle]
  rcases (runCurrent library).apply r with ⟨e | more, next⟩ <;> rfl

/-! ### A run that is driven -/

variable {r₀ : Run P} {initial : Snapshot} {root : Job P} {config : RunConfig}
  {begun : List (Run P)}

/-- Between two steps the next node waits, and what is archived has its record. -/
theorem Driven.since (h : Driven library (ofJob initial root config) begun r) :
    r.timeline.Recorded ∧ (r.phase = .idle → Since r.timeline (Next r.current) r) := by
  suffices hrecorded : r.timeline.Recorded by
    refine ⟨hrecorded, fun hidle => ?_⟩
    obtain ⟨id, hnext⟩ := h.tracked.2 hidle
    obtain rfl := hnext.1
    exact ⟨hnext, hrecorded.refl⟩
  induction h with
  | refl => exact Timeline.recorded_ofRoot root initial
  | @step begun r h hidle ih =>
      obtain ⟨id, hnext⟩ := h.tracked.2 hidle
      have hsince : Since r.timeline (Next id) r := ⟨hnext, ih.refl⟩
      rw [timeline_step hidle]
      exact ((runCurrent_keeps library).keeps hsince).recorded
  | aside h request ih =>
      obtain ⟨scratch, notes, heq⟩ := h.standing.aside_eq request
      rw [heq]
      exact ih

/-- A step leaves the records that are there. -/
theorem Driven.onward_step (h : Driven library (ofJob initial root config) begun r)
    (hidle : r.phase = .idle) : Onward r ((Run.step library).apply r).2 := by
  rw [Onward, timeline_step hidle]
  exact (runCurrent_keeps library).keeps (h.since.2 hidle)

/-- So does what is asked for aside of the steps. -/
theorem Driven.onward_aside (h : Driven library (ofJob initial root config) begun r)
    (request : Request P β) : Onward r (answer .refused β request r).2 := by
  obtain ⟨scratch, notes, heq⟩ := h.standing.aside_eq request
  rw [heq]
  exact h.since.1.refl

/-- What the steps so far have archived is there at every later time. -/
theorem Driven.exists_begun (h : Driven library (ofJob initial root config) begun r) {b : Run P}
    (hb : b ∈ begun) :
    ∃ before, Driven library (ofJob initial root config) before b ∧ b.phase = .idle ∧
      Onward ((Run.step library).apply b).2 r := by
  induction h with
  | refl => simp at hb
  | @step begun r h hidle ih =>
      rcases List.mem_append.mp hb with hb | hb
      · obtain ⟨before, hbefore, hphase, honward⟩ := ih hb
        exact ⟨before, hbefore, hphase, honward.trans (h.onward_step hidle)⟩
      · obtain rfl := List.mem_singleton.mp hb
        exact ⟨begun, h, hidle, (h.step hidle).since.1.refl⟩
  | aside h request ih =>
      obtain ⟨before, hbefore, hphase, honward⟩ := ih hb
      exact ⟨before, hbefore, hphase, honward.trans (h.onward_aside request)⟩

end Run

end Chronicle
