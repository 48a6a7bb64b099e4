import Chronicle.Proofs.Run.Records
/-!
The number of steps of a run.

A run counts the steps that it completes.  Neither programs nor hooks have a part in that, and no
stage of a step but its end: so a step that fails is not counted, whichever stage it fails in, and
one that is done is counted once (`runCurrent_counts`).  A run that has failed is aborted and
starts no more steps, so the steps that were started are those that are counted, and one more if
the run is aborted (`started`, `Driven.length_begun`).
-/

namespace Chronicle

namespace Run

variable {P α β : Type} {library : Library P} {r r' r₀ : Run P} {n : Nat}

theorem Writes.steps_eq (h : r.Writes r') : r'.steps = r.steps ∧ r'.phase = r.phase := by
  cases h with
  | aside => exact ⟨rfl, rfl⟩
  | @state place => cases place <;> exact ⟨rfl, rfl⟩
  | node => exact ⟨rfl, rfl⟩
  | child => exact ⟨rfl, rfl⟩

/-- So many steps were completed, and the run is in this phase. -/
def Counts (n : Nat) (phase : Phase) (r : Run P) : Prop := r.steps = n ∧ r.phase = phase

/-- So many steps were completed. -/
def Counted (n : Nat) (r : Run P) : Prop := r.steps = n

theorem Counts.putState {phase : Phase} (h : r.Counts n phase) (place : Workplace)
    (state : SnapshotState) : (r.putState place state).Counts n phase := by
  cases place <;> exact h

theorem performScript_counts {phase : Phase} (hphase : phase ≠ .idle) (script : Script P α) :
    Edit.Leads (Counts n phase) (performScript .refused script) (fun _ => Counts n phase)
      (Counted n) := by
  refine performScript_leads _ (fun β request r h => ?_) script fun _ h => h.1
  obtain ⟨hsteps, hsame⟩ := (answer_writes (by rw [h.2]; exact hphase) request).steps_eq
  exact ⟨hsteps.trans h.1, hsame.trans h.2⟩

theorem materializeIn_counts {phase : Phase} (place : Workplace) :
    Edit.Leads (Counts n phase) (materializeIn place : Edit (Run P) (Option Snapshot))
      (fun _ => Counts n phase) (Counted n) :=
  materializeIn_leads (fun _ place state h => h.putState place state) place fun _ h => h.1

theorem openStep_counts :
    Edit.Leads (Counts n .idle) (openStep : Edit (Run P) Label) (fun _ => Counts n .running)
      (Counted n) := by
  unfold openStep
  refine .get fun r h => .bind (fun _ => Counts n .idle) (.atomic ?_ ?_) fun label => ?_
  · rintro _ label next rfl heq
    obtain ⟨⟨label', timeline⟩, -, heq⟩ := exists_of_bind_eq_ok heq
    obtain ⟨-, rfl⟩ := Prod.mk.inj (Except.ok.inj heq)
    exact h
  · rintro _ rfl
    exact h.1
  refine .bind _ (materializeIn_counts _) fun snapshot => ?_
  split
  · exact .throw _ fun _ h => h.1
  · exact .bind (fun _ => Counts n .idle) (.modify _ fun _ h => h) fun _ =>
      .bind (fun _ => Counts n .running) (.modify _ fun _ h => ⟨h.1, rfl⟩) fun _ =>
        .pure _ fun _ h => h

theorem performCurrent_counts (library : Library P) :
    Edit.Leads (Counts n .running) (performCurrent library) (fun _ => Counts n .running)
      (Counted n) := by
  unfold performCurrent
  refine .get fun r h => .bind (fun _ r' => r' = r) (.ofExcept (fun _ _ _ h => h) ?_) fun job => ?_
  · rintro _ rfl
    exact h.1
  · refine (performScript_counts (by simp) _).mono ?_ fun _ _ h => h
    rintro _ rfl
    exact h

theorem recordAndHandOver_counts (id : NodeId) (live : Snapshot) :
    Edit.Leads (Counts n .idle) (recordAndHandOver id live : Edit (Run P) Bool)
      (fun _ => Counts n .idle) (Counted n) := by
  unfold recordAndHandOver
  refine .bind (fun _ => Counts n .idle) (.modify _ fun _ h => h) fun _ => ?_
  refine .bind (fun _ => Counts n .idle) (.ofExcept (fun _ _ _ h => h) fun _ h => h.1)
    fun handover => .get fun r h => ?_
  split
  · refine .bind (fun _ => Counts n .idle) (.modify _ ?_) fun _ => .pure _ fun _ h => h
    rintro _ rfl
    exact h
  · refine .bind (fun _ => Counts n .idle) (.modify _ ?_) fun _ => .pure _ fun _ h => h
    rintro _ rfl
    exact h

theorem closeStep_counts (id : NodeId) :
    Edit.Leads (Counts n .running) (closeStep id : Edit (Run P) (Node (Job P) × Bool))
      (fun _ => Counts n .idle) (Counted n) := by
  unfold closeStep
  refine .bind (fun _ => Counts n .idle) (.modify _ fun _ h => ⟨h.1, rfl⟩) fun _ => ?_
  refine .get fun r h => .bind (fun _ => Counts n .idle) (.ofExcept ?_ ?_) fun node => ?_
  · rintro _ _ _ rfl
    exact h
  · rintro _ rfl
    exact h.1
  refine .bind (fun _ => Counts n .idle) ?_ fun live => ?_
  · unfold takeState
    refine .get fun r h => .bind (fun _ => Counts n .idle) (.modify _ ?_) fun _ => ?_
    · rintro _ rfl
      exact h
    · split
      · exact .pure _ fun _ h => h
      · exact .throw _ fun _ h => h.1
  have hhand : Edit.Leads (Counts n .idle)
      (recordAndHandOver id live >>= fun more => pure (node, more) : Edit (Run P) _)
      (fun _ => Counts n .idle) (Counted n) :=
    .bind _ (recordAndHandOver_counts id live) fun _ => .pure _ fun _ h => h
  split
  · refine .bind (fun _ => Counts n .idle) (.atomic (fun r _ next h heq => ?_) fun _ h => h.1)
      fun _ => hhand
    obtain ⟨⟨copy, timeline⟩, -, heq⟩ := exists_of_bind_eq_ok heq
    obtain ⟨-, rfl⟩ := Prod.mk.inj (Except.ok.inj heq)
    exact h
  · exact hhand

theorem runHook_counts (library : Library P) (hook : Job P) :
    Edit.Leads (Counts n .idle) (runHook library hook) (fun _ => Counts n .idle) (Counted n) := by
  unfold runHook openHook
  refine .bind (fun _ => Counts n .hook) ?_ fun _ => ?_
  · refine .bind (fun _ => Counts n .hook) (.modify _ fun _ h => ⟨h.1, rfl⟩) fun _ => ?_
    refine .get fun r h => ?_
    split
    · refine .bind _ ((materializeIn_counts _).mono ?_ fun _ _ h => h) fun _ => .pure _ fun _ h => h
      rintro _ rfl
      exact h
    · exact .pure _ fun _ heq => heq ▸ h
  refine .bind _ (performScript_counts (by simp) _) fun _ => ?_
  unfold closeHook
  refine .bind (fun _ => Counts n .idle) (.modify _ fun _ h => ⟨h.1, rfl⟩) fun _ => ?_
  refine .modify _ fun r h => ?_
  split <;> exact h

/-- **A step that is done is counted, and the run goes on or is finished.**  One that fails is not
counted. -/
theorem runCurrent_counts (library : Library P) :
    Edit.Leads (Counts n .idle) (runCurrent library)
      (fun more => Counts (n + 1) (if more then .idle else .finished)) (Counted n) := by
  rw [runCurrent_eq]
  refine .get fun r h => .bind (fun _ => Counts n .running) (openStep_counts.mono ?_ ?_)
    fun label => ?_
  · rintro _ rfl
    exact h
  · exact fun _ _ h => h
  refine .bind _ (performCurrent_counts library) fun _ => .bind _ (closeStep_counts _)
    fun closed => ?_
  have hend : Edit.Leads (Counts n .idle)
      (endStep label closed.1.name closed.2 : Edit (Run P) Bool)
      (fun more => Counts (n + 1) (if more then .idle else .finished)) (Counted n) := by
    unfold endStep concludeStep
    cases closed.2 with
    | true =>
        exact .bind (fun _ => Counts (n + 1) .idle)
          (.modify _ fun _ h => ⟨congrArg (· + 1) h.1, h.2⟩) fun _ => .pure _ fun _ h => h
    | false =>
        refine .bind (fun _ => Counts (n + 1) .finished) (.bind (fun _ => Counts (n + 1) .idle)
          (.modify _ fun _ h => ⟨congrArg (· + 1) h.1, h.2⟩) fun _ => ?_)
          fun _ => .pure _ fun _ h => h
        exact .modify _ fun _ h => ⟨h.1, rfl⟩
  unfold conclude
  split
  · next hook _ => exact .bind _ (runHook_counts library hook) fun _ => hend
  · exact hend

/-! ### The steps that were started -/

/-- The number of steps that were started: those that are done, and the one that failed. -/
def started (r : Run P) : Nat := r.steps + if r.phase = .aborted then 1 else 0

/-- A step ends in one of three ways. -/
inductive Stepped (r r' : Run P) : Except EngineError Bool → Prop
  | more (phase : r'.phase = .idle) (steps : r'.steps = r.steps + 1) : Stepped r r' (.ok true)
  | last (phase : r'.phase = .finished) (steps : r'.steps = r.steps + 1) : Stepped r r' (.ok false)
  | failed (e : EngineError) (phase : r'.phase = .aborted) (steps : r'.steps = r.steps) :
      Stepped r r' (.error e)

theorem stepped_step (hidle : r.phase = .idle) (library : Library P) :
    Stepped r ((step library).apply r).2 ((step library).apply r).1 := by
  have hend := runCurrent_counts library r ⟨rfl, hidle⟩
  rw [step, Edit.apply_mk, hidle]
  dsimp only
  rcases hres : (runCurrent library).apply r with ⟨e | more, next⟩
  · rw [hres] at hend
    exact .failed e rfl hend
  · rw [hres] at hend
    cases more with
    | true => exact .more hend.2 hend.1
    | false => exact .last hend.2 hend.1

theorem Stepped.started_eq {result : Except EngineError Bool} (h : Stepped r r' result)
    (hidle : r.phase = .idle) : r'.started = r.started + 1 := by
  cases h with
  | more phase steps => simp [started, phase, steps, hidle]
  | last phase steps => simp [started, phase, steps, hidle]
  | failed e phase steps => simp [started, phase, steps, hidle]

/-- A step that is done leaves the run between two steps or finished. -/
theorem Stepped.phase_of_ok {more : Bool} (h : Stepped r r' (.ok more)) :
    r'.phase = .idle ∨ r'.phase = .finished := by
  cases h with
  | more phase _ => exact Or.inl phase
  | last phase _ => exact Or.inr phase

/-- Where no program is at work, the operations that drive a run are not refused, and to begin
anew changes nothing. -/
structure Steady (r : Run P) : Prop where
  running : r.phase ≠ .running
  hook : r.phase ≠ .hook
  start : r.start = r

theorem Standing.steady {initial : Snapshot} {begun : List (Run P)}
    (h : Standing library initial begun r) : r.Steady := by
  cases h with
  | idle visits jobs state runs told between awaited =>
      exact ⟨by simp [between.phase], by simp [between.phase], between.start_eq⟩
  | finished visits data last runs told closed isLast ends =>
      exact ⟨by simp [closed.phase], by simp [closed.phase], by simp [Run.start, closed.phase]⟩
  | aborted phase => exact ⟨by simp [phase], by simp [phase], by simp [Run.start, phase]⟩

/-- **What is begun is started.**  The steps that were begun in a driven run are as many as can be
read off it. -/
theorem Driven.length_begun {initial : Snapshot} {root : Job P} {config : RunConfig}
    {begun : List (Run P)} (h : Driven library (ofJob initial root config) begun r) :
    begun.length = r.started := by
  induction h with
  | refl => rfl
  | step h hidle ih =>
      rw [List.length_append, ih, (stepped_step hidle library).started_eq hidle]
      rfl
  | aside h request ih =>
      obtain ⟨scratch, notes, heq⟩ := h.standing.aside_eq request
      rw [heq]
      exact ih

end Run

end Chronicle
