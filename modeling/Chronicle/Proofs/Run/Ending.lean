import Chronicle.Proofs.Run.Counting
/-!
Runs that are taken to their end.

`StepsTo` counts the steps that lead from one run to another, each of which has another one to
follow.  The step behind them ends the run: it is the last one, or it fails (`EndsAs`).  A run that
comes to its end in this way is taken there by `execute`, whatever the batches are, as soon as
enough of them are allowed (`StepsTo.execute_eq`).

So one can ask whether a run is finished by any number of batches, and if it ends by a known number
of them (`EndsBy`), that number gives the answer (`EndsBy.execute_eq`).
-/

namespace Chronicle

namespace Run

variable {P : Type} {library : Library P} {r r₁ r₂ last : Run P} {count : Nat}

/-- So many steps lead from one run to the other, and after each of them there is more to do. -/
inductive StepsTo (library : Library P) : Nat → Run P → Run P → Prop
  | refl (r : Run P) : StepsTo library 0 r r
  | next {count : Nat} {r r₁ r₂ : Run P} (step : (step library).apply r = (.ok true, r₁))
      (rest : StepsTo library count r₁ r₂) : StepsTo library (count + 1) r r₂

/-- A step that comes to this is the end of its run. -/
inductive EndsAs : Except EngineError Bool → Except EngineError RunState → Prop
  | finished : EndsAs (.ok false) (.ok .finished)
  | failed (e : EngineError) : EndsAs (.error e) (.error e)

namespace StepsTo

theorem single (h : (step library).apply r = (.ok true, r₁)) : StepsTo library 1 r r₁ :=
  .next h (.refl r₁)

theorem trans {count' : Nat} (h : StepsTo library count r r₁)
    (h' : StepsTo library count' r₁ r₂) : StepsTo library (count' + count) r r₂ := by
  induction h with
  | refl => exact h'
  | next step _ ih => exact .next step (ih h')

/-- Only an idle run has a step to make. -/
theorem idle_of_step {more : Bool} (h : (step library).apply r = (.ok more, r₁))
    (hmore : more = true) : r.phase = .idle := by
  subst hmore
  cases hphase : r.phase with
  | idle => rfl
  | _ => simp [step, Edit.apply_mk, hphase] at h

/-- Steps are a way to drive a run. -/
theorem driven {r₀ : Run P} {begun : List (Run P)} (h : StepsTo library count r r₁)
    (hdriven : Driven library r₀ begun r) : ∃ begun', Driven library r₀ begun' r₁ := by
  induction h generalizing begun with
  | refl => exact ⟨begun, hdriven⟩
  | next step _ ih =>
      have hnext := hdriven.step (idle_of_step step rfl)
      rw [step] at hnext
      exact ih hnext

/-! ### Taken to the end -/

variable {answer : Except EngineError Bool} {outcome : Except EngineError RunState}

/-- A batch that is long enough ends the run; any other leaves so many steps less. -/
theorem runSteps_eq (h : StepsTo library count r r₁)
    (hlast : (step library).apply r₁ = (answer, last)) (hends : EndsAs answer outcome)
    (limit : Nat) :
    (count < limit ∧ (runSteps library limit).apply r = (outcome, last)) ∨
      (limit ≤ count ∧ ∃ r', (runSteps library limit).apply r = (.ok .yielded, r') ∧
        StepsTo library (count - limit) r' r₁) := by
  induction limit generalizing r count with
  | zero => exact .inr ⟨Nat.zero_le _, r, rfl, h⟩
  | succ limit ih =>
      rw [runSteps_succ]
      cases h with
      | refl =>
          refine .inl ⟨Nat.succ_pos _, ?_⟩
          rw [hlast]
          cases hends with
          | finished => rfl
          | failed e => rfl
      | @next count _ r' _ step rest =>
          rw [step]
          rcases ih rest with ⟨hlt, hrun⟩ | ⟨hle, r', hrun, hrest⟩
          · exact .inl ⟨Nat.succ_lt_succ hlt, hrun⟩
          · refine .inr ⟨Nat.succ_le_succ hle, r', hrun, ?_⟩
            rwa [Nat.add_sub_add_right]

/-- Enough batches end the run, each of them making one step at least. -/
theorem runBatches_eq (h : StepsTo library count r r₁)
    (hlast : (step library).apply r₁ = (answer, last)) (hends : EndsAs answer outcome)
    {rounds : Nat} (hrounds : count < rounds) :
    (runBatches library rounds).apply r = (outcome, last) := by
  induction rounds generalizing r count with
  | zero => exact absurd hrounds (Nat.not_lt_zero _)
  | succ rounds ih =>
      have hresume : (resume library).apply r
          = (runSteps library (max r.config.batchSteps 1)).apply r :=
        Edit.apply_bind_of_ok (Edit.apply_get r) _
      rw [runBatches_succ, hresume]
      rcases h.runSteps_eq hlast hends (max r.config.batchSteps 1) with
        ⟨-, hrun⟩ | ⟨hle, r', hrun, hrest⟩
      · rw [hrun]
        cases hends with
        | finished => rfl
        | failed e => rfl
      · rw [hrun]
        exact ih hrest (by omega)

/-- **A run with so many steps to its end is ended by `execute`**, and always in the same way. -/
theorem execute_eq (h : StepsTo library count r r₁)
    (hlast : (step library).apply r₁ = (answer, last)) (hends : EndsAs answer outcome)
    (hidle : r.phase = .idle) (hstart : r.start = r) {rounds : Nat} (hrounds : count < rounds) :
    (execute library rounds).apply r = (outcome, last) := by
  rw [apply_execute, if_neg (by simp [hidle]), hstart]
  exact h.runBatches_eq hlast hends hrounds

end StepsTo

/-! ### The phase at the end -/

theorem finished_of_step (h : (step library).apply r = (.ok false, last)) :
    last.phase = .finished := by
  cases hphase : r.phase with
  | idle =>
      have hstep := stepped_step hphase library
      rw [h] at hstep
      cases hstep with
      | last phase => exact phase
  | finished =>
      rw [step, Edit.apply_mk, hphase] at h
      obtain ⟨-, rfl⟩ := Prod.mk.inj h
      exact hphase
  | _ => simp [step, Edit.apply_mk, hphase] at h

theorem finished_of_runSteps (h : (runSteps library count).apply r = (.ok .finished, last)) :
    last.phase = .finished := by
  induction count generalizing r with
  | zero => simp [runSteps] at h
  | succ count ih =>
      rw [runSteps_succ] at h
      rcases hstep : (step library).apply r with ⟨e | more, next⟩
      · simp [hstep] at h
      · rw [hstep] at h
        cases more with
        | true => exact ih h
        | false =>
            obtain ⟨-, rfl⟩ := Prod.mk.inj h
            exact finished_of_step hstep

theorem finished_of_runBatches (h : (runBatches library count).apply r = (.ok .finished, last)) :
    last.phase = .finished := by
  induction count generalizing r with
  | zero => simp [runBatches] at h
  | succ count ih =>
      rw [runBatches_succ] at h
      rcases hresume : (resume library).apply r with ⟨e | state, next⟩
      · simp [hresume] at h
      · rw [hresume] at h
        cases state with
        | yielded => exact ih h
        | finished =>
            obtain ⟨-, rfl⟩ := Prod.mk.inj h
            exact finished_of_runSteps
              ((Edit.apply_bind_of_ok (Edit.apply_get r) _).symm.trans hresume)

/-- An execution that answers so has finished the run. -/
theorem finished_of_execute (h : (execute library count).apply r = (.ok .finished, last)) :
    last.phase = .finished := by
  rw [apply_execute] at h
  split at h
  · simp at h
  · exact finished_of_runBatches h

/-- Where an execution ends, the run was driven there. -/
theorem drivable_of_execute {r₀ : Run P} {outcome : Except EngineError RunState}
    (h : (execute library count).apply r₀ = (outcome, last)) : Drivable library r₀ last := by
  have hdriven : Drivable library r₀ _ := Drives.execute count r₀ ⟨[], .refl⟩
  rwa [h] at hdriven

/-- A run that is finished by `execute` has a final snapshot. -/
theorem exists_final_of_execute {initial : Snapshot} {root : Job P} {config : RunConfig}
    (h : (execute library count).apply (ofJob initial root config) = (.ok .finished, last)) :
    ∃ final, last.finalSnapshot? = some final := by
  have hphase := finished_of_execute h
  obtain ⟨begun, hdriven⟩ := drivable_of_execute h
  cases hdriven.standing with
  | idle _ _ _ _ _ between => cases between.phase.symm.trans hphase
  | finished _ data _ _ _ closed => exact ⟨data, closed.finalSnapshot?_eq⟩
  | aborted phase => cases phase.symm.trans hphase

/-! ### Enough batches -/

/-- So many batches take the run to its end, and more of them to the same one. -/
inductive EndsBy (library : Library P) (bound : Nat) (r : Run P) : Prop
  | finished {last : Run P} (execute : ∀ rounds, bound ≤ rounds →
      (execute library rounds).apply r = (.ok .finished, last))
  | failed {e : EngineError} {last : Run P} (execute : ∀ rounds, bound ≤ rounds →
      (execute library rounds).apply r = (.error e, last))

theorem EndsBy.mono {bound bound' : Nat} (h : EndsBy library bound r) (hle : bound ≤ bound') :
    EndsBy library bound' r := by
  cases h with
  | finished execute => exact .finished fun _ hrounds => execute _ (Nat.le_trans hle hrounds)
  | failed execute => exact .failed fun _ hrounds => execute _ (Nat.le_trans hle hrounds)

/-- A run whose first step fails takes one batch. -/
theorem EndsBy.of_step_eq {e : EngineError} (h : (step library).apply r = (.error e, last))
    (hidle : r.phase = .idle) (hstart : r.start = r) : EndsBy library 1 r :=
  .failed fun _ hrounds => (StepsTo.refl r).execute_eq h (.failed e) hidle hstart hrounds

/-- A run that is finished by some batches is finished by more of them, and in the same way. -/
theorem runBatches_eq_finished_of_le {rounds more : Nat}
    (h : (runBatches library rounds).apply r = (.ok .finished, last)) (hle : rounds ≤ more) :
    (runBatches library more).apply r = (.ok .finished, last) := by
  induction rounds generalizing r more with
  | zero => simp [runBatches] at h
  | succ rounds ih =>
      obtain ⟨more, rfl⟩ := Nat.exists_eq_succ_of_ne_zero (Nat.ne_of_gt (Nat.zero_lt_of_lt hle))
      rw [runBatches_succ] at h ⊢
      rcases hresume : (resume library).apply r with ⟨e | state, next⟩
      · simp [hresume] at h
      · rw [hresume] at h
        cases state with
        | yielded => exact ih h (Nat.le_of_succ_le_succ hle)
        | finished => exact h

theorem execute_eq_finished_of_le {rounds more : Nat}
    (h : (execute library rounds).apply r = (.ok .finished, last)) (hle : rounds ≤ more) :
    (execute library more).apply r = (.ok .finished, last) := by
  rw [apply_execute] at h ⊢
  split at h
  · simp at h
  · next hready =>
      rw [if_neg hready]
      exact runBatches_eq_finished_of_le h hle

/-- **Where a bound on the batches is known, it is enough**: it finishes the run if any number of
batches does, and otherwise it fails. -/
theorem EndsBy.execute_eq {bound : Nat} (h : EndsBy library bound r) :
    (∃ last, (execute library bound).apply r = (.ok .finished, last)) ∨
      ∃ e last, (execute library bound).apply r = (.error e, last) ∧
        ∀ rounds r', (execute library rounds).apply r ≠ (.ok .finished, r') := by
  cases h with
  | finished hexecute => exact .inl ⟨_, hexecute bound (Nat.le_refl _)⟩
  | failed hexecute =>
      refine .inr ⟨_, _, hexecute bound (Nat.le_refl _), fun rounds r' hfinished => ?_⟩
      have hmore := execute_eq_finished_of_le hfinished (Nat.le_max_left rounds bound)
      rw [hexecute _ (Nat.le_max_right rounds bound)] at hmore
      simp at hmore

end Run

end Chronicle
