import Chronicle.EngineError
/-!
Edits: computations that may change a state and may fail.

An edit that fails keeps the changes it made before the failure, so `Edit.apply` always answers
with a state beside the result.  Most edits look before they change anything; those are written
with `Edit.atomic`, and `apply_atomic_error` says that such an edit leaves the state alone when
it fails.
-/

namespace Chronicle

/-- A change of a state `σ` that answers with an `α` or fails. -/
abbrev Edit (σ : Type) := ExceptT EngineError (StateM σ)

namespace Edit

variable {σ τ α β : Type}

/-- Run an edit: its result, and the state it leaves. -/
def apply (e : Edit σ α) (s : σ) : Except EngineError α × σ := (ExceptT.run e).run s

/-- The edit that takes its result and the next state from the present one, or fails and
changes nothing. -/
def atomic (f : σ → Except EngineError (α × σ)) : Edit σ α := ExceptT.mk fun s =>
  match f s with
  | .ok (a, next) => (.ok a, next)
  | .error e => (.error e, s)

/-- Answer from the present state without a change. -/
def reading (f : σ → Except EngineError α) : Edit σ α := atomic fun s => (f s).map (·, s)

/-- Answer with a result that is known, without a change. -/
def ofExcept (result : Except EngineError α) : Edit σ α := ExceptT.mk fun s => (result, s)

/-- Perform an edit on a part of the state. -/
def on (part : σ → τ) (put : σ → τ → σ) (e : Edit τ α) : Edit σ α := ExceptT.mk fun s =>
  let (result, next) := e.apply (part s)
  (result, put s next)

@[simp] theorem apply_pure (a : α) (s : σ) : apply (pure a : Edit σ α) s = (.ok a, s) := rfl

@[simp] theorem apply_throw (e : EngineError) (s : σ) :
    apply (throw e : Edit σ α) s = (.error e, s) := rfl

@[simp] theorem apply_get (s : σ) : apply (get : Edit σ σ) s = (.ok s, s) := rfl

@[simp] theorem apply_modify (f : σ → σ) (s : σ) :
    apply (modify f : Edit σ Unit) s = (.ok (), f s) := rfl

@[simp] theorem apply_mk (f : σ → Except EngineError α × σ) (s : σ) :
    apply (ExceptT.mk f : Edit σ α) s = f s := rfl

theorem apply_bind (e : Edit σ α) (f : α → Edit σ β) (s : σ) :
    apply (e >>= f) s =
      match apply e s with
      | (.ok a, next) => apply (f a) next
      | (.error err, next) => (.error err, next) := by
  simp only [apply, bind, ExceptT.bind, ExceptT.run, ExceptT.mk, StateT.run, StateT.bind]
  rcases e s with ⟨_ | _, next⟩ <;> rfl

/-- An edit that succeeds hands its answer and its state to what comes next. -/
theorem apply_bind_of_ok {e : Edit σ α} {s next : σ} {a : α} (h : apply e s = (.ok a, next))
    (f : α → Edit σ β) : apply (e >>= f) s = apply (f a) next := by
  rw [apply_bind, h]

/-- An edit that fails is the end. -/
theorem apply_bind_of_error {e : Edit σ α} {s next : σ} {err : EngineError}
    (h : apply e s = (.error err, next)) (f : α → Edit σ β) :
    apply (e >>= f) s = (.error err, next) := by
  rw [apply_bind, h]

/-- Of two edits in a row that succeed the first did, and then the second. -/
theorem exists_of_apply_bind {e : Edit σ α} {f : α → Edit σ β} {s last : σ} {b : β}
    (h : apply (e >>= f) s = (.ok b, last)) :
    ∃ a next, apply e s = (.ok a, next) ∧ apply (f a) next = (.ok b, last) := by
  rw [apply_bind] at h
  split at h
  · next a next heq => exact ⟨a, next, heq, h⟩
  · simp at h

/-- An edit that is made only under a condition, and what comes next in either case. -/
theorem ite_bind (c : Prop) [Decidable c] (e : Edit σ Unit) (f : Unit → Edit σ α) :
    (if c then e >>= f else f ()) = (if c then e else pure ()) >>= f := by
  split <;> rfl

theorem apply_map (f : α → β) (e : Edit σ α) (s : σ) :
    apply (f <$> e) s = ((apply e s).1.map f, (apply e s).2) := by
  simp only [apply, Functor.map, ExceptT.map, ExceptT.run, ExceptT.mk, StateT.run, StateT.bind,
    bind]
  rcases e s with ⟨_ | _, next⟩ <;> rfl

/-- An edit without its answer. -/
theorem apply_discard (e : Edit σ α) (s : σ) :
    apply (discard e) s = ((apply e s).1.map fun _ => (), (apply e s).2) := apply_map _ e s

@[simp] theorem apply_ofExcept (result : Except EngineError α) (s : σ) :
    apply (ofExcept result) s = (result, s) := rfl

@[simp] theorem apply_reading (f : σ → Except EngineError α) (s : σ) :
    apply (reading f) s = (f s, s) := by
  simp only [reading, atomic, apply, ExceptT.run, ExceptT.mk, StateT.run]
  cases f s <;> rfl

@[simp] theorem apply_atomic (f : σ → Except EngineError (α × σ)) (s : σ) :
    apply (atomic f) s =
      match f s with
      | .ok (a, next) => (.ok a, next)
      | .error e => (.error e, s) := rfl

/-- An edit that looks first changes nothing when it fails. -/
theorem apply_atomic_error {f : σ → Except EngineError (α × σ)} {s next : σ} {e : EngineError}
    (h : apply (atomic f) s = (.error e, next)) : next = s := by
  simp only [apply_atomic] at h
  split at h <;> simp_all

@[simp] theorem apply_on (part : σ → τ) (put : σ → τ → σ) (e : Edit τ α) (s : σ) :
    apply (e.on part put) s = ((e.apply (part s)).1, put s (e.apply (part s)).2) := rfl

end Edit

end Chronicle
