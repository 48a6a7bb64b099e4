import Chronicle.Proofs.Run.Execution
import Chronicle.Proofs.Run.Labels
/-!
Every moment of a run.

A run can be looked at between two steps, and also in the middle of one: a program or a hook that
is at work can inspect it between any two of its requests.  `Moment` lists all of these, for every
way of driving the run and also when a step fails.

Each stage of a step is taken through the conditions of the labels in turn (`openStep_leads` and
the lemmas after it), so a step leaves the run labelled however it ends (`Driven.tracked`), and it
is labelled at every moment (`Moment.marked`).  What a labelled timeline tells is then said of a
run: `labels_are_positions`.
-/

namespace Chronicle

variable {P α β σ : Type}

/-- While the action is performed in `s`, the state `s'` is met. -/
inductive Action.Meets (answer : (β : Type) → Request P β → σ → β × σ) :
    Action P α → σ → σ → Prop
  | here (action : Action P α) (s : σ) : Meets answer action s s
  | ask {β : Type} {request : Request P β} {next : β → Action P α} {s s' : σ}
      (h : Meets answer (next (answer β request s).1) (answer β request s).2 s') :
      Meets answer (.ask request next) s s'

/-- What every request keeps holds of all that is met. -/
theorem Action.Meets.holds {answer : (β : Type) → Request P β → σ → β × σ} {action : Action P α}
    {s s' : σ} (h : action.Meets answer s s') (inv : σ → Prop)
    (hkept : ∀ β (request : Request P β) s, inv s → inv (answer β request s).2) (hs : inv s) :
    inv s' := by
  induction h with
  | here => exact hs
  | ask _ ih => exact ih (hkept _ _ _ hs)

/-- What an action leaves is the last that is met. -/
theorem Action.meets_perform (answer : (β : Type) → Request P β → σ → β × σ) (action : Action P α)
    (s : σ) : action.Meets answer s (action.perform answer s).2 := by
  induction action generalizing s with
  | done a => exact .here _ s
  | ask request next ih => exact .ask (ih _ _)

namespace Run

variable {library : Library P} {r r' r₀ : Run P} {id : NodeId} {begun : List (Run P)}

/-! ### The stages of a step -/

theorem performScript_leads (inv : Run P → Prop)
    (hkept : ∀ β (request : Request P β) r, inv r → inv (answer .refused β request r).2)
    (script : Script P α) {fail : Run P → Prop} (hfail : ∀ r, inv r → fail r) :
    Edit.Leads inv (performScript .refused script) (fun _ => inv) fail := by
  intro r hr
  have hend := (Action.meets_perform (answer .refused) script.run r).holds inv hkept hr
  rw [performScript, Edit.apply_mk]
  match hres : script.run.perform (answer .refused) r with
  | (.ok a, next) =>
      rw [hres] at hend
      exact hend
  | (.error e, next) =>
      rw [hres] at hend
      exact hfail next hend

theorem materializeIn_leads {inv : Run P → Prop}
    (hput : ∀ r place state, inv r → inv (r.putState place state)) (place : Workplace)
    {fail : Run P → Prop} (hfail : ∀ r, inv r → fail r) :
    Edit.Leads inv (materializeIn place) (fun _ => inv) fail := by
  refine .atomic (fun r a next hr heq => ?_) hfail
  cases hstate : (r.stateIn place).materialize with
  | error e => simp [hstate, bind, Except.bind] at heq
  | ok answer =>
      simp only [hstate, bind, Except.bind, pure, Except.pure, Except.ok.injEq,
        Prod.mk.injEq] at heq
      rw [← heq.2]
      exact hput r place _ hr

/-- The next node gets its label, and its program is about to begin. -/
theorem openStep_leads :
    Edit.Leads (Next id) (openStep : Edit (Run P) Label)
      (fun _ r => r.Begun id ∧ r.phase = .running) Marked := by
  unfold openStep
  refine .get fun r hnext => ?_
  obtain ⟨rfl, begun, rest, hlabelled⟩ := hnext
  refine .bind (fun _ => Begun r.current) (.atomic ?_ ?_) fun label => ?_
  · rintro _ label next rfl heq
    obtain ⟨⟨label', timeline⟩, hassign, heq⟩ := exists_of_bind_eq_ok heq
    obtain ⟨n, hn, hassign⟩ := exists_of_bind_eq_ok hassign
    obtain ⟨-, rfl⟩ := Prod.mk.inj (Except.ok.inj heq)
    obtain ⟨-, rfl⟩ := Prod.mk.inj (Except.ok.inj hassign)
    exact ⟨rfl, begun, rest, hlabelled.assign (Timeline.node_eq_ok.mp hn)⟩
  · rintro _ rfl
    exact ⟨begun, _, hlabelled⟩
  refine .bind _ (materializeIn_leads (fun _ place state h => h.putState place state) _
    fun _ h => h.marked) fun snapshot => ?_
  split
  · exact .throw _ fun _ h => h.marked
  refine .bind (fun _ => Begun r.current) (.modify _ fun _ h => ?_) fun _ => ?_
  · exact h.modifyNode (fun _ => rfl) fun _ => rfl
  exact .bind (fun _ r' => r'.Begun r.current ∧ r'.phase = .running)
    (.modify _ fun _ h => ⟨h, rfl⟩) fun _ => .pure _ fun _ h => h

/-- What the program of a step asks for keeps the step under way. -/
theorem begun_answer (request : Request P β) (h : r.Begun id ∧ r.phase = .running) :
    (answer .refused β request r).2.Begun id ∧
      (answer .refused β request r).2.phase = .running := by
  obtain ⟨hbegun, hphase⟩ := h
  have hidle : r.phase ≠ .idle := by simp [hphase]
  have htouches := answer_touches hidle request
  exact ⟨(hbegun.touches htouches).1, (hbegun.touches htouches).2.trans hphase⟩

theorem performCurrent_leads (library : Library P) :
    Edit.Leads (fun r => r.Begun id ∧ r.phase = .running) (performCurrent library)
      (fun _ r => r.Begun id ∧ r.phase = .running) Marked := by
  unfold performCurrent
  refine .get fun r h => ?_
  refine .bind (fun _ r' => r' = r) (.ofExcept ?_ ?_) fun n => ?_
  · exact fun _ _ _ heq => heq
  · rintro _ rfl
    exact h.1.marked
  · refine (performScript_leads (fun r => r.Begun id ∧ r.phase = .running)
      (fun _ request _ h => begun_answer request h) _ fun _ h => h.1.marked).mono ?_ fun _ _ h => h
    rintro _ rfl
    exact h

theorem takeState_leads :
    Edit.Leads (Begun id) (takeState id : Edit (Run P) Snapshot) (fun _ => Begun id) Marked := by
  unfold takeState
  refine .get fun r h => .bind (fun _ => Begun id) (.modify _ ?_) fun _ => ?_
  · rintro _ rfl
    exact h.putState _ _
  · split
    · exact .pure _ fun _ h => h
    · exact .throw _ fun _ h => h.marked

theorem duplicateNode_leads :
    Edit.Leads (Begun id) (duplicateNode id : Edit (Run P) Unit) (fun _ => Begun id) Marked := by
  refine .atomic (fun r _ next h heq => ?_) fun _ h => h.marked
  obtain ⟨⟨copy, timeline⟩, hduplicate, heq⟩ := exists_of_bind_eq_ok heq
  obtain ⟨-, rfl⟩ := Prod.mk.inj (Except.ok.inj heq)
  obtain ⟨hcurrent, begun, rest, h⟩ := h
  obtain ⟨rest', h'⟩ := h.duplicate hduplicate
  exact ⟨hcurrent, begun, rest', h'⟩

/-- The node right behind the one whose step is under way is the next. -/
theorem Begun.after_eq (h : r.Begun id) :
    ∃ begun rest, r.timeline.Labelled (begun ++ [id]) rest ∧ r.timeline.after id = rest.head? := by
  obtain ⟨-, begun, rest, h⟩ := h
  refine ⟨begun, rest, h, ?_⟩
  obtain ⟨⟨f, hshape, horder, -⟩, -⟩ := h
  exact hshape.after_eq (by simpa using horder)

theorem recordAndHandOver_leads (live : Snapshot) :
    Edit.Leads (Begun id) (recordAndHandOver id live : Edit (Run P) Bool) Handed Marked := by
  unfold recordAndHandOver
  refine .bind (fun _ => Begun id) (.modify _ fun _ h => ?_) fun _ => ?_
  · exact h.modifyNode (fun _ => rfl) fun _ => rfl
  refine .bind (fun _ => Begun id) (.ofExcept (fun _ _ _ h => h) fun _ h => h.marked)
    fun handover => ?_
  refine .get fun r h => ?_
  obtain ⟨begun, rest, hlabelled, hafter⟩ := h.after_eq
  rw [hafter]
  cases rest with
  | nil =>
      refine .bind (fun _ => Marked) (.modify _ ?_) fun _ => .pure _ fun _ h => h
      rintro _ rfl
      exact ⟨_, _, labelled_putState hlabelled _ _⟩
  | cons next rest =>
      refine .bind (fun _ => Next next) (.modify _ ?_) fun _ => .pure _ fun _ h => ⟨next, h⟩
      rintro _ rfl
      exact ⟨rfl, _, _, labelled_putState hlabelled (.node next) (.archived handover)⟩

/-- The state of the step is handed on, to the node right behind. -/
theorem closeStep_leads :
    Edit.Leads (Begun id) (closeStep id : Edit (Run P) (Node (Job P) × Bool))
      (fun answer => Handed answer.2) Marked := by
  unfold closeStep
  refine .bind (fun _ => Begun id) (.modify _ fun _ h => h) fun _ => ?_
  refine .get fun r h => ?_
  refine .bind (fun _ => Begun id) (.ofExcept ?_ ?_) fun n => ?_
  · rintro _ _ _ rfl
    exact h
  · rintro _ rfl
    exact h.marked
  refine .bind _ takeState_leads fun live => ?_
  have hhanded : Edit.Leads (Begun id)
      (recordAndHandOver id live >>= fun more => pure (n, more) : Edit (Run P) _)
      (fun answer => Handed answer.2) Marked :=
    .bind _ (recordAndHandOver_leads live) fun more => .pure _ fun _ h => h
  split
  · exact .bind _ duplicateNode_leads fun _ => hhanded
  · exact hhanded

/-- What a hook asks for leaves what was handed on where it is. -/
theorem handed_answer {more : Bool} (request : Request P β) (h : r.Handed more ∧ r.phase = .hook) :
    (answer .refused β request r).2.Handed more ∧
      (answer .refused β request r).2.phase = .hook := by
  obtain ⟨hhanded, hphase⟩ := h
  have hidle : r.phase ≠ .idle := by simp [hphase]
  exact hhanded.touches hphase (answer_touches hidle request)

theorem openHook_leads {more : Bool} :
    Edit.Leads (Handed more) (openHook : Edit (Run P) Unit)
      (fun _ r => r.Handed more ∧ r.phase = .hook) Marked := by
  unfold openHook
  refine .bind (fun _ r => r.Handed more ∧ r.phase = .hook)
    (.modify _ fun _ h => ⟨h, rfl⟩) fun _ => ?_
  refine .get fun r h => ?_
  split
  · next place hplace =>
      refine .bind (fun _ r => r.Handed more ∧ r.phase = .hook) ?_ fun _ =>
        .pure _ fun _ h => h
      refine (materializeIn_leads ?_ place fun _ h => h.1.marked).mono ?_ fun _ _ h => h
      · exact fun _ place state h =>
          ⟨h.1.putState place state, (phase_putState place state).trans h.2⟩
      · rintro _ rfl
        exact h
  · exact .pure _ fun _ heq => heq ▸ h

theorem runHook_leads {more : Bool} (library : Library P) (hook : Job P) :
    Edit.Leads (Handed more) (runHook library hook) (fun _ => Handed more) Marked := by
  unfold runHook
  refine .bind _ openHook_leads fun _ => ?_
  refine .bind _ (performScript_leads (fun r => r.Handed more ∧ r.phase = .hook)
    (fun _ request _ h => handed_answer request h) _ fun _ h => h.1.marked) fun _ => ?_
  refine .bind (fun _ => Handed more) (.modify _ fun _ h => h.1) fun _ => ?_
  refine .modify _ fun r h => ?_
  split <;> exact h

/-- Labelled, and ready for the next step unless the run is over. -/
def Tracked (r : Run P) : Prop := r.Marked ∧ (r.phase = .idle → ∃ id, r.Next id)

theorem concludeStep_leads (label : Label) (name : String) (more : Bool) {fail : Run P → Prop} :
    Edit.Leads (Handed more) (concludeStep label name more : Edit (Run P) Unit)
      (fun _ => Tracked) fail := by
  unfold concludeStep
  refine .bind (fun _ => Handed more) (.modify _ fun _ h => h) fun _ => ?_
  cases more with
  | true => exact .pure _ fun _ h => ⟨Handed.marked h, fun _ => h⟩
  | false => exact .modify _ fun _ h => ⟨h, fun hidle => by simp [finish] at hidle⟩

/-- However a step ends, the run is labelled. -/
theorem runCurrent_leads (library : Library P) :
    Edit.Leads (Next id) (runCurrent library) (fun _ => Tracked) Marked := by
  unfold runCurrent
  refine .get fun r hnext => ?_
  obtain rfl := hnext.1
  refine .bind (fun _ r' => r'.Begun r.current ∧ r'.phase = .running)
    (openStep_leads.mono ?_ fun _ _ h => h) fun label => ?_
  · rintro _ rfl
    exact hnext
  refine .bind _ (performCurrent_leads library) fun _ => ?_
  refine .bind _ (closeStep_leads.mono (fun _ h => h.1) fun _ _ h => h) fun answer => ?_
  obtain ⟨n, more⟩ := answer
  have hconclude : Edit.Leads (Handed more)
      (concludeStep label n.name more >>= fun _ => pure more : Edit (Run P) Bool)
      (fun _ => Tracked) Marked :=
    .bind _ (concludeStep_leads label n.name more) fun _ => .pure _ fun _ h => h
  dsimp only
  split
  · next hook hhook => exact .bind _ (runHook_leads library hook) fun _ => hconclude
  · exact hconclude

/-! ### Every moment -/

theorem Tracked.step (h : r.Tracked) (hidle : r.phase = .idle) (library : Library P) :
    ((step library).apply r).2.Tracked := by
  obtain ⟨id, hnext⟩ := h.2 hidle
  have hend := runCurrent_leads library r hnext
  rw [Run.step, Edit.apply_mk, hidle]
  rcases hres : (runCurrent library).apply r with ⟨e | more, next⟩
  · rw [hres] at hend
    exact ⟨hend, fun hidle => by simp at hidle⟩
  · rw [hres] at hend
    exact hend

variable {initial : Snapshot} {root : Job P} {config : RunConfig}

/-- What is asked for aside of the steps has no part in them. -/
theorem Standing.aside_eq (h : Standing library initial begun r) (request : Request P β) :
    ∃ scratch notes, (answer .refused β request r).2 = { r with scratch, notes } := by
  have hphase : r.phase ≠ .running ∧ r.phase ≠ .hook := by
    cases h with
    | idle visits jobs state runs told between awaited => simp [between.phase]
    | finished visits data last runs told closed isLast ends => simp [closed.phase]
    | aborted phase => simp [phase]
  have hstart : r.start = r := by
    cases h with
    | idle visits jobs state runs told between awaited => exact between.start_eq
    | finished visits data last runs told closed isLast ends => simp [start, closed.phase]
    | aborted phase => simp [start, phase]
  rcases answer_aside hphase.1 hphase.2 request with heq | hother
  · exact ⟨r.scratch, r.notes, heq.trans hstart⟩
  · exact hother

/-- **A run that is driven is labelled, whatever became of its steps.** -/
theorem Driven.tracked (h : Driven library (ofJob initial root config) begun r) : r.Tracked := by
  induction h with
  | refl =>
      have hlabelled := Timeline.labelled_ofRoot root (.live initial)
      exact ⟨⟨_, _, hlabelled⟩, fun _ => ⟨Timeline.root, rfl, _, _, hlabelled⟩⟩
  | step _ hidle ih => exact ih.step hidle library
  | aside h request ih =>
      obtain ⟨scratch, notes, heq⟩ := h.standing.aside_eq request
      rw [heq]
      exact ih

/-- The runs that can be looked at while `r₀` is driven: between two steps, and whenever a program
or a hook of a step has made some of its requests. -/
inductive Moment (library : Library P) (r₀ : Run P) : Run P → Prop
  | between {begun : List (Run P)} {r : Run P} (h : Driven library r₀ begun r) :
      Moment library r₀ r
  | program {begun : List (Run P)} {r opened r' : Run P} {label : Label} {n : Node (Job P)}
      (h : Driven library r₀ begun r) (idle : r.phase = .idle)
      (opens : openStep.apply r = (.ok label, opened)) (node : opened.currentNode = .ok n)
      (meets : (n.program.program library).run.Meets (answer .refused) opened r') :
      Moment library r₀ r'
  | hook {begun : List (Run P)} {r opened returned handed hooked r' : Run P} {label : Label}
      {n : Node (Job P)} {more : Bool} {hook : Job P}
      (h : Driven library r₀ begun r) (idle : r.phase = .idle)
      (opens : openStep.apply r = (.ok label, opened))
      (performs : (performCurrent library).apply opened = (.ok (), returned))
      (closes : (closeStep r.current).apply returned = (.ok (n, more), handed))
      (hooks : n.hook = some hook) (begins : openHook.apply handed = (.ok (), hooked))
      (meets : (hook.program library).run.Meets (answer .refused) hooked r') :
      Moment library r₀ r'

/-- Whatever scripts lead a run to, from outside it is seen between two steps. -/
theorem Reaches.moment (h : Reaches library r₀ r) : Moment library r₀ r := by
  obtain ⟨begun, hdriven⟩ := h.driven
  exact .between hdriven

/-- **At every moment the run is labelled.**  If a program is at work, its step is under way. -/
theorem Moment.marked (h : Moment library (ofJob initial root config) r) :
    r.Marked ∧ ((∃ begun, Driven library (ofJob initial root config) begun r) ∨
      r.phase = .running ∨ r.phase = .hook) := by
  cases h with
  | between h => exact ⟨h.tracked.1, Or.inl ⟨_, h⟩⟩
  | @program begun r opened r' label n h idle opens node meets =>
      obtain ⟨id, hnext⟩ := h.tracked.2 idle
      have hopened := openStep_leads r hnext
      rw [opens] at hopened
      have hmet := meets.holds (fun r => r.Begun id ∧ r.phase = .running)
        (fun _ request _ h => begun_answer request h) hopened
      exact ⟨hmet.1.marked, Or.inr (Or.inl hmet.2)⟩
  | @hook begun r opened returned handed hooked r' label n more hook h idle opens performs closes
      hooks begins meets =>
      obtain ⟨id, hnext⟩ := h.tracked.2 idle
      obtain rfl := hnext.1
      have hopened := openStep_leads r hnext
      rw [opens] at hopened
      have hreturned := performCurrent_leads library opened hopened
      rw [performs] at hreturned
      have hhanded := closeStep_leads returned hreturned.1
      rw [closes] at hhanded
      have hhooked := openHook_leads handed hhanded
      rw [begins] at hhooked
      have hmet := meets.holds (fun r => r.Handed more ∧ r.phase = .hook)
        (fun _ request _ h => handed_answer request h) hhooked
      exact ⟨hmet.1.marked, Or.inr (Or.inr hmet.2)⟩

/-- A node with a record has its position for its label. -/
theorem Marked.labelOf_eq (hmarked : r.Marked) {id : NodeId} {data : SnapshotData}
    (h : r.timeline.HasRecord id data) :
    r.timeline.labelOf id = ⟨r.timeline.position id⟩ := by
  obtain ⟨n, hcore, hstatus, -⟩ := h
  obtain ⟨n, hn, rfl⟩ := Option.map_eq_some_iff.mp hcore
  obtain ⟨begun, rest, hlabelled⟩ := hmarked
  have harchived : n.status = .archived := hstatus
  have hid : id ∈ begun := hlabelled.mem_begun hn (.inr (by simp [harchived]))
  rw [Timeline.labelOf, hn]
  exact (hlabelled.label_eq hn hid).1

/-- **Labels are positions.**

At every moment of every run, a node below the root whose step has begun has the position that it
has in the present tree for its label; the text of the label is the one that the texts of its
neighbours give it, and finds the node.  Along the chronological order the labels of these nodes
increase strictly, place by place.  In a finished run they are all there is to find. -/
theorem labels_are_positions (h : Moment library (ofJob initial root config) r)
    (hfew : ∀ id, (r.timeline.children id).length < UInt64.size) :
    (∀ id n, r.timeline.node? id = some n → id ≠ Timeline.root → n.status ≠ .scheduled →
      n.label = ⟨r.timeline.position id⟩ ∧
      n.label.text = ".".intercalate ((r.timeline.position id).map toString) ∧
      n.label.text = r.timeline.derivedText n ∧
      r.timeline.findByLabel n.label.text = some id) ∧
    ((r.timeline.chronological.filter r.timeline.hasBegun).Pairwise fun p q =>
      (r.timeline.labelOf p).path < (r.timeline.labelOf q).path) ∧
    (r.phase = .finished →
      (∀ id n, r.timeline.node? id = some n → n.status = .archived) ∧
      ∀ text, (∀ id n, r.timeline.node? id = some n → id ≠ Timeline.root → n.label.text ≠ text) →
        r.timeline.findByLabel text = none) := by
  obtain ⟨⟨begun, rest, hlabelled⟩, hphase⟩ := h.marked
  refine ⟨fun id n hn hroot hstatus => ?_, ?_, fun hfinished => ⟨?_, fun text hother => ?_⟩⟩
  · have hid : id ∈ begun := hlabelled.mem_begun hn (Or.inr hstatus)
    obtain ⟨hlabel, htext⟩ := hlabelled.label_eq hn hid
    obtain ⟨parent, hrank⟩ := hlabelled.exists_rank_le hid hroot
    refine ⟨hlabel, by rw [hlabel]; rfl, htext (Nat.lt_of_le_of_lt hrank (hfew parent)),
      hlabelled.findByLabel_eq hn hid hroot⟩
  · exact hlabelled.labels_increasing.sublist hlabelled.filter_hasBegun
  · -- Neither a program nor a hook is at work in a finished run.
    rcases hphase with ⟨steps, hdriven⟩ | hrunning | hhook
    · cases hdriven.standing with
      | idle visits jobs state runs told between awaited => simp [between.phase] at hfinished
      | finished visits data last runs told closed isLast ends => exact closed.order_eq.2.2.2.1
      | aborted phase => simp [phase] at hfinished
    · simp [hrunning] at hfinished
    · simp [hhook] at hfinished
  · exact hlabelled.findByLabel_eq_none hother

/-- Three programs: the first schedules the two others, and the second has itself repeated once. -/
def repeating : Nat → Script Nat Unit
  | 0 => do
    Script.schedule 1
    Script.schedule 2
  | 1 => do
    let first ← Script.ask (.editScratch fun scratch =>
      (scratch.isEmpty, if scratch.isEmpty then scratch.insert .list "repeated" [] else scratch))
    if first then Script.requestRepeat
  | _ => pure ()

/-- The run in which a copy is put between two siblings, driven to its end. -/
theorem labels_are_positions_repeating :
    ∃ r, Reaches repeating (ofJob oneSymbol (.named 0) {}) r ∧ r.phase = .finished ∧
      r.timeline.chronological = [⟨0⟩, ⟨1⟩, ⟨3⟩, ⟨2⟩] ∧ r.timeline.position ⟨2⟩ = [3] ∧
      r.timeline.findByLabel "3" = some ⟨2⟩ ∧ r.timeline.findByLabel "1.1" = none := by
  have hreaches := Reaches.command
    (.refl : Reaches repeating (ofJob oneSymbol (.named 0) {}) _) (Script.demand (.execute 1))
  generalize hr : ((command repeating (Script.demand (.execute 1))).apply
    (ofJob oneSymbol (.named 0) {})).2 = r at hreaches
  have hfinished : r.phase = .finished := by subst hr; decide +kernel
  have horder : r.timeline.chronological = [⟨0⟩, ⟨1⟩, ⟨3⟩, ⟨2⟩] := by subst hr; decide +kernel
  have hposition : r.timeline.position ⟨2⟩ = [3] := by subst hr; decide +kernel
  have hsize : r.timeline.size = 4 := by subst hr; decide +kernel
  have hother : ∀ n ∈ r.timeline.nodes, n.label.text ≠ "1.1" := by subst hr; decide +kernel
  have hfew : ∀ id, (r.timeline.children id).length < UInt64.size := fun id =>
    Nat.lt_of_le_of_lt (Timeline.length_follow_le ..) (by rw [hsize]; decide)
  obtain ⟨hlabels, -, hend⟩ := labels_are_positions hreaches.moment hfew
  obtain ⟨harchived, hnone⟩ := hend hfinished
  obtain ⟨n, hn⟩ : ∃ n, r.timeline.node? ⟨2⟩ = some n :=
    Option.isSome_iff_exists.mp (Timeline.node?_isSome.mpr (by rw [hsize]; decide))
  obtain ⟨-, htext, -, hfind⟩ := hlabels ⟨2⟩ n hn (by decide) (by rw [harchived ⟨2⟩ n hn]; decide)
  refine ⟨r, hreaches, hfinished, horder, hposition, ?_, hnone _ fun id n hn _ => ?_⟩
  · rw [htext, hposition] at hfind
    exact hfind
  · exact hother n (Array.mem_of_getElem? hn)

end Run

end Chronicle
