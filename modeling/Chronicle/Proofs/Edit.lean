import Chronicle.Edit
/-!
What an edit does to a state that is as it should be.

An edit can fail, and then it leaves what it had made of the state so far.  `Edit.Keeps` is for
invariants: they hold afterwards either way.  `Edit.Leads` is the triple for edits that go through
stages: one condition before, one for the end with its answer, and one for the failure.
-/

namespace Chronicle

/-! ### Computations that may fail -/

theorem exists_of_bind_eq_ok {α β ε : Type} {x : Except ε α} {f : α → Except ε β} {b : β}
    (h : (x >>= f) = .ok b) : ∃ a, x = .ok a ∧ f a = .ok b := by
  cases x with
  | error e => cases h
  | ok a => exact ⟨a, rfl, h⟩

theorem bind_eq_ok_iff {α β ε : Type} {x : Except ε α} {f : α → Except ε β} {b : β} :
    (x >>= f) = .ok b ↔ ∃ a, x = .ok a ∧ f a = .ok b := by
  refine ⟨exists_of_bind_eq_ok, fun h => ?_⟩
  obtain ⟨a, rfl, hf⟩ := h
  exact hf

/-- Another wording of the error changes no success. -/
theorem mapError_eq_ok {α ε ε' : Type} {x : Except ε α} {f : ε → ε'} {a : α} :
    x.mapError f = .ok a ↔ x = .ok a := by
  cases x with
  | error e => constructor <;> intro h <;> cases h
  | ok b => constructor <;> intro h <;> cases h <;> rfl

/-- What every successful step of a fold keeps holds of its result. -/
theorem inv_of_foldlM_of_mem {α β ε : Type} {f : β → α → Except ε β} (inv : β → Prop) {l : List α}
    {b last : β} (h : inv b) (hstep : ∀ b, ∀ a ∈ l, ∀ next, inv b → f b a = .ok next → inv next)
    (hfold : l.foldlM f b = .ok last) : inv last := by
  induction l generalizing b with
  | nil =>
      obtain rfl : b = last := Except.ok.inj hfold
      exact h
  | cons a l ih =>
      rw [List.foldlM_cons] at hfold
      obtain ⟨next, hfirst, hrest⟩ := exists_of_bind_eq_ok hfold
      exact ih (hstep b a List.mem_cons_self next h hfirst)
        (fun b a' ha' => hstep b a' (List.mem_cons_of_mem _ ha')) hrest

theorem inv_of_foldlM_eq_ok {α β ε : Type} {f : β → α → Except ε β} (inv : β → Prop) {l : List α}
    {b last : β} (h : inv b) (hstep : ∀ b a next, inv b → f b a = .ok next → inv next)
    (hfold : l.foldlM f b = .ok last) : inv last :=
  inv_of_foldlM_of_mem inv h (fun b a _ => hstep b a) hfold

/-- A fold that succeeds went through a successful step for each member, on a value that fits the
invariant. -/
theorem exists_step_of_foldlM {α β ε : Type} {f : β → α → Except ε β} (inv : β → Prop) {l : List α}
    {b last : β} {a : α} (ha : a ∈ l) (h : inv b)
    (hstep : ∀ b a next, inv b → f b a = .ok next → inv next) (hfold : l.foldlM f b = .ok last) :
    ∃ b next, inv b ∧ f b a = .ok next := by
  induction l generalizing b with
  | nil => cases ha
  | cons first l ih =>
      rw [List.foldlM_cons] at hfold
      obtain ⟨next, hfirst, hrest⟩ := exists_of_bind_eq_ok hfold
      rcases List.mem_cons.mp ha with rfl | ha
      · exact ⟨b, next, h, hfirst⟩
      · exact ih ha (hstep b first next h hfirst) hrest

/-- A fold in which every step succeeds while an invariant holds. -/
theorem foldlM_eq_ok {α β ε : Type} {f : β → α → Except ε β} {next : β → α → β} (inv : β → Prop)
    {l : List α} {b : β} (h : inv b)
    (hstep : ∀ a ∈ l, ∀ b, inv b → f b a = .ok (next b a) ∧ inv (next b a)) :
    l.foldlM f b = .ok (l.foldl next b) ∧ inv (l.foldl next b) := by
  induction l generalizing b with
  | nil => exact ⟨rfl, h⟩
  | cons a l ih =>
      obtain ⟨hfirst, hinv⟩ := hstep a List.mem_cons_self b h
      rw [List.foldlM_cons, hfirst]
      exact ih hinv fun a' ha' => hstep a' (List.mem_cons_of_mem _ ha')

/-- A fold whose steps succeed exactly if their members are `ok`, and then do what `next` says, as
long as an invariant holds. -/
theorem foldlM_eq_ok_iff {α β ε : Type} {f : β → α → Except ε β} {next : β → α → β}
    {ok : α → Prop} (inv : β → Prop) {l : List α} {b last : β} (h : inv b)
    (hstep : ∀ b, ∀ a ∈ l, ∀ b', inv b → (f b a = .ok b' ↔ ok a ∧ b' = next b a))
    (hnext : ∀ b a, inv b → inv (next b a)) :
    l.foldlM f b = .ok last ↔ (∀ a ∈ l, ok a) ∧ last = l.foldl next b := by
  induction l generalizing b with
  | nil =>
      refine ⟨fun heq => ⟨by simp, (Except.ok.inj heq).symm⟩, fun heq => ?_⟩
      exact congrArg Except.ok heq.2.symm
  | cons a l ih =>
      have hrest := ih (hnext b a h) fun b a' ha' => hstep b a' (List.mem_cons_of_mem _ ha')
      have hfirst := fun b' => hstep b a List.mem_cons_self b' h
      rw [List.foldlM_cons, List.forall_mem_cons, List.foldl_cons, and_assoc, ← hrest]
      constructor
      · intro heq
        obtain ⟨b', hb', heq⟩ := exists_of_bind_eq_ok heq
        obtain ⟨hok, rfl⟩ := (hfirst b').mp hb'
        exact ⟨hok, heq⟩
      · intro heq
        obtain ⟨hok, heq⟩ := heq
        rw [(hfirst _).mpr ⟨hok, rfl⟩]
        exact heq

/-! ### How a computation can fail -/

/-- If the computation fails, then with an error that is `ok`. -/
def FailsOnly {ε α : Type} (ok : ε → Prop) (x : Except ε α) : Prop := ∀ e, x = .error e → ok e

namespace FailsOnly

variable {α β ε : Type} {ok : ε → Prop}

theorem pure (a : α) : FailsOnly ok (.ok a) := fun _ h => by cases h

theorem error {e : ε} (h : ok e) : FailsOnly ok (.error e : Except ε α) := by
  rintro _ ⟨⟩
  exact h

theorem bind {x : Except ε α} {f : α → Except ε β} (hx : FailsOnly ok x)
    (hf : ∀ a, FailsOnly ok (f a)) : FailsOnly ok (x >>= f) := by
  cases x with
  | error e => exact fun e' h => hx e' (by cases h; rfl)
  | ok a => exact hf a

theorem foldlM {f : β → α → Except ε β} (hf : ∀ b a, FailsOnly ok (f b a)) (l : List α) (b : β) :
    FailsOnly ok (l.foldlM f b) := by
  induction l generalizing b with
  | nil => exact pure b
  | cons a l ih =>
      rw [List.foldlM_cons]
      exact (hf b a).bind ih

end FailsOnly

namespace Edit

/-! ### Invariants -/

section

variable {σ α β : Type} {inv : σ → Prop} {e : Edit σ α} {f : α → Edit σ β}

/-- Whether it succeeds or not, the edit keeps the invariant. -/
def Keeps (inv : σ → Prop) (e : Edit σ α) : Prop := ∀ s, inv s → inv (e.apply s).2

namespace Keeps

theorem pure (a : α) : Keeps inv (pure a) := fun _ h => h

theorem throw (err : EngineError) : Keeps inv (throw err : Edit σ α) := fun _ h => h

theorem reading (f : σ → Except EngineError α) : Keeps inv (reading f) := by
  intro s h
  rwa [apply_reading]

theorem bind (he : Keeps inv e) (hf : ∀ a, Keeps inv (f a)) : Keeps inv (e >>= f) := by
  intro s h
  have hnext := he s h
  rw [apply_bind]
  match hres : e.apply s with
  | (.ok a, next) =>
      rw [hres] at hnext
      exact hf a next hnext
  | (.error err, next) =>
      rw [hres] at hnext
      exact hnext

theorem modify {f : σ → σ} (h : ∀ s, inv s → inv (f s)) :
    Keeps inv (modify f : Edit σ Unit) := h

theorem ofExcept (result : Except EngineError α) : Keeps inv (ofExcept result : Edit σ α) :=
  fun _ h => h

/-- What comes after reading the state. -/
theorem get {f : σ → Edit σ α} (h : ∀ s, Keeps inv (f s)) : Keeps inv (MonadState.get >>= f) :=
  bind (fun _ hs => hs) h

theorem discard (he : Keeps inv e) : Keeps inv (discard e) := by
  intro s h
  rw [apply_discard]
  exact he s h

theorem atomic {f : σ → Except EngineError (α × σ)}
    (h : ∀ s a next, inv s → f s = .ok (a, next) → inv next) : Keeps inv (atomic f) := by
  intro s hs
  rw [apply_atomic]
  split
  · next a next heq => exact h s a next hs heq
  · exact hs

end Keeps

/-- The state after an edit for each item of a list, whether it succeeds or not. -/
def performAll {ι : Type} (f : ι → Edit σ α) (items : List ι) (s : σ) : σ :=
  items.foldl (fun s i => ((f i).apply s).2) s

/-- What an edit for each item of a list answers, one after the other. -/
def answers {ι : Type} (f : ι → Edit σ α) : List ι → σ → List (Except EngineError α)
  | [], _ => []
  | i :: items, s => ((f i).apply s).1 :: answers f items ((f i).apply s).2

theorem Keeps.performAll {ι : Type} {f : ι → Edit σ α} {items : List ι}
    (h : ∀ i ∈ items, Keeps inv (f i)) {s : σ} (hs : inv s) : inv (performAll f items s) := by
  induction items generalizing s with
  | nil => exact hs
  | cons i items ih =>
      exact ih (fun j hj => h j (List.mem_cons_of_mem _ hj)) (h i List.mem_cons_self s hs)

end

/-! ### Triples -/

section

variable {σ α β : Type} {pre pre' fail : σ → Prop} {post post' : α → σ → Prop} {e : Edit σ α}

/-- Begun where `pre` holds, the edit ends where `post` holds of its answer, or fails where `fail`
holds. -/
def Leads (pre : σ → Prop) (e : Edit σ α) (post : α → σ → Prop) (fail : σ → Prop) : Prop :=
  ∀ s, pre s →
    match e.apply s with
    | (.ok a, next) => post a next
    | (.error _, next) => fail next

namespace Leads

theorem pure (a : α) (h : ∀ s, pre s → post a s) : Leads pre (pure a) post fail := h

theorem throw (err : EngineError) (h : ∀ s, pre s → fail s) :
    Leads pre (throw err : Edit σ α) post fail := h

theorem modify {post : Unit → σ → Prop} (f : σ → σ) (h : ∀ s, pre s → post () (f s)) :
    Leads pre (modify f : Edit σ Unit) post fail := h

/-- What comes after reading the state begins in the state that was read. -/
theorem get {f : σ → Edit σ α} (h : ∀ s, pre s → Leads (fun s' => s' = s) (f s) post fail) :
    Leads pre (MonadState.get >>= f) post fail := by
  intro s hs
  exact h s hs s rfl

theorem ofExcept {result : Except EngineError α} (hok : ∀ a, result = .ok a → ∀ s, pre s → post a s)
    (herror : ∀ s, pre s → fail s) : Leads pre (ofExcept result) post fail := by
  intro s hs
  rw [apply_ofExcept]
  cases result with
  | ok a => exact hok a rfl s hs
  | error err => exact herror s hs

theorem atomic {f : σ → Except EngineError (α × σ)}
    (hok : ∀ s a next, pre s → f s = .ok (a, next) → post a next)
    (herror : ∀ s, pre s → fail s) : Leads pre (atomic f) post fail := by
  intro s hs
  rw [apply_atomic]
  cases hres : f s with
  | ok answer => exact hok s answer.1 answer.2 hs hres
  | error err => exact herror s hs

/-- One edit after the other; `mid` holds between them. -/
theorem bind (mid : α → σ → Prop) {post : β → σ → Prop} {f : α → Edit σ β}
    (he : Leads pre e mid fail) (hf : ∀ a, Leads (mid a) (f a) post fail) :
    Leads pre (e >>= f) post fail := by
  intro s hs
  have hfirst := he s hs
  rw [apply_bind]
  match hres : e.apply s with
  | (.ok a, next) =>
      rw [hres] at hfirst
      exact hf a next hfirst
  | (.error err, next) =>
      rw [hres] at hfirst
      exact hfirst

/-- What holds afterwards in any case holds at the end and of the failure. -/
theorem of_either (h : ∀ s, pre s → fail (e.apply s).2) : Leads pre e (fun _ => fail) fail := by
  intro s hs
  have hnext := h s hs
  match hres : e.apply s with
  | (.ok a, next) =>
      rw [hres] at hnext
      exact hnext
  | (.error err, next) =>
      rw [hres] at hnext
      exact hnext

/-- What a triple says of an edit that succeeds. -/
theorem of_apply (h : Leads pre e post fail) {s next : σ} {a : α} (hs : pre s)
    (happly : e.apply s = (.ok a, next)) : post a next := by
  have hend := h s hs
  rw [happly] at hend
  exact hend

/-- What is kept on either way is kept by the edit. -/
theorem keeps (h : Leads pre e (fun _ => fail) fail) {s : σ} (hs : pre s) :
    fail (e.apply s).2 := by
  have hend := h s hs
  match hres : e.apply s with
  | (.ok a, next) =>
      rw [hres] at hend
      exact hend
  | (.error err, next) =>
      rw [hres] at hend
      exact hend

theorem mono (h : Leads pre e post fail) (hpre : ∀ s, pre' s → pre s)
    (hpost : ∀ a s, post a s → post' a s) : Leads pre' e post' fail := by
  intro s hs
  have hend := h s (hpre s hs)
  match hres : e.apply s with
  | (.ok a, next) =>
      rw [hres] at hend
      exact hpost a next hend
  | (.error err, next) =>
      rw [hres] at hend
      exact hend

end Leads

theorem Keeps.leads {inv : σ → Prop} (h : Keeps inv e) (hfail : ∀ s, inv s → fail s) :
    Leads inv e (fun _ => inv) fail := by
  intro s hs
  have hnext := h s hs
  match hres : e.apply s with
  | (.ok a, next) =>
      rw [hres] at hnext
      exact hnext
  | (.error err, next) =>
      rw [hres] at hnext
      exact hfail next hnext

end

end Edit

end Chronicle
