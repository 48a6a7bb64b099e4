import Chronicle.Proofs.Run.Counting
/-!
Invariants that outlast the stages of a step.

Between the programs a step does little: it changes nodes in all but their links and programs, and
puts a copy behind one.  An invariant of the timeline and the scratch data that the changes of nodes
keep is `Stable`, and so every stage keeps it that neither performs a program nor adds a node, whether
the stage succeeds or not.  If copies keep it, too, it is `Lasting`, and what is left to say of a whole
step is what its program and its hook do.  A hook can change no more than states, so it keeps a stable
invariant that is about the timeline alone (`Stable.runHook`), and so does all that follows when the
state of a step was handed on (`Stable.conclude`).
-/

namespace Chronicle

namespace Run

variable {P : Type}

/-- The invariant is about the timeline and the scratch data only, and it is kept by changes of a
node that leave its links and its program. -/
structure Stable (inv : Run P → Prop) : Prop where
  congr : ∀ {r r' : Run P}, inv r → r'.timeline = r.timeline → r'.scratch = r.scratch → inv r'
  modifyNode : ∀ {r : Run P} (id : NodeId) {g : Node (Job P) → Node (Job P)}, inv r →
    (∀ n, (g n).place = n.place) → (∀ n, (g n).program = n.program) → inv (r.modifyNode id g)

/-- The invariant is about the timeline and the scratch data only; it is kept by changes of a node
that leave its links and its program, and by copies. -/
structure Lasting (inv : Run P → Prop) : Prop where
  congr : ∀ {r r' : Run P}, inv r → r'.timeline = r.timeline → r'.scratch = r.scratch → inv r'
  modifyNode : ∀ {r : Run P} (id : NodeId) {g : Node (Job P) → Node (Job P)}, inv r →
    (∀ n, (g n).place = n.place) → (∀ n, (g n).program = n.program) → inv (r.modifyNode id g)
  duplicate : ∀ {r : Run P} {id copy : NodeId} {timeline : Timeline (Job P)}, inv r →
    r.timeline.duplicate id = .ok (copy, timeline) → inv { r with timeline }

namespace Stable

variable {inv : Run P → Prop} {r : Run P}

theorem putState (h : Stable inv) (hr : inv r) (place : Workplace) (state : SnapshotState) :
    inv (r.putState place state) := by
  cases place with
  | node id => exact h.modifyNode id hr (fun _ => rfl) fun _ => rfl
  | final => exact h.congr hr rfl rfl

theorem materializeIn (h : Stable inv) (place : Workplace) :
    Edit.Keeps inv (materializeIn place) := by
  refine .atomic fun s a next hs heq => ?_
  obtain ⟨⟨opened, state⟩, -, heq⟩ := exists_of_bind_eq_ok heq
  obtain ⟨-, rfl⟩ := Prod.mk.inj (Except.ok.inj heq)
  exact h.putState hs _ _

theorem setPhase (h : Stable inv) (phase : Phase) : Edit.Keeps inv (setPhase phase) :=
  .modify fun _ hs => h.congr hs rfl rfl

/-- After the first stage the program of the step is at work. -/
theorem openStep_leads (h : Stable inv) : Edit.Leads inv (openStep : Edit (Run P) Label)
    (fun _ r => inv r ∧ r.phase = .running) inv := by
  unfold Run.openStep
  refine .get fun r hr => .bind (fun _ => inv) (.atomic ?_ fun _ hs => hs ▸ hr) fun label =>
    .bind (fun _ => inv) (.of_either (h.materializeIn _)) fun opened => ?_
  · rintro _ label next rfl heq
    obtain ⟨⟨label', timeline⟩, hassign, heq⟩ := exists_of_bind_eq_ok heq
    obtain ⟨n, -, hassign⟩ := exists_of_bind_eq_ok hassign
    obtain ⟨-, rfl⟩ := Prod.mk.inj (Except.ok.inj heq)
    obtain ⟨-, rfl⟩ := Prod.mk.inj (Except.ok.inj hassign)
    exact h.modifyNode _ hr (fun _ => rfl) fun _ => rfl
  · split
    · exact .throw _ fun _ hs => hs
    · exact .bind (fun _ => inv)
        (.modify _ fun s hs => h.modifyNode _ hs (fun _ => rfl) fun _ => rfl) fun _ =>
        .bind (fun _ r => inv r ∧ r.phase = .running)
          (.modify _ fun s hs => ⟨h.congr hs rfl rfl, rfl⟩) fun _ => .pure _ fun _ hs => hs

theorem openStep (h : Stable inv) : Edit.Keeps inv (openStep : Edit (Run P) Label) := fun _ hr =>
  (h.openStep_leads.mono (fun _ hs => hs) fun _ _ hs => hs.1).keeps hr

theorem takeState (h : Stable inv) (id : NodeId) :
    Edit.Keeps inv (takeState id : Edit (Run P) Snapshot) := by
  unfold Run.takeState
  refine .get fun r => .bind (.modify fun s hs => h.putState hs _ _) fun _ => ?_
  split
  · exact .pure _
  · exact .throw _

theorem recordAndHandOver (h : Stable inv) (id : NodeId) (live : Snapshot) :
    Edit.Keeps inv (recordAndHandOver id live : Edit (Run P) Bool) := by
  unfold Run.recordAndHandOver
  refine .bind (.modify fun s hs => h.modifyNode _ hs (fun _ => rfl) fun _ => rfl) fun _ =>
    .bind (.ofExcept _) fun handover => .get fun r => ?_
  split
  · next next _ =>
      refine .bind (.modify fun s hs => ?_) fun _ => .pure _
      exact h.congr (h.putState hs (.node next) (.archived handover)) rfl rfl
  · exact .bind (.modify fun s hs => h.putState hs _ _) fun _ => .pure _

theorem concludeStep (h : Stable inv) (label : Label) (name : String) (more : Bool) :
    Edit.Keeps inv (concludeStep label name more : Edit (Run P) Unit) := by
  unfold Run.concludeStep
  refine .bind (.modify fun s hs => h.congr hs rfl rfl) fun _ => ?_
  split
  · exact .modify fun s hs => h.congr hs rfl rfl
  · exact .pure _

theorem closeHook (h : Stable inv) : Edit.Keeps inv (closeHook : Edit (Run P) Unit) := by
  unfold Run.closeHook
  refine .bind (h.setPhase _) fun _ => .modify fun s hs => ?_
  split
  · exact h.congr hs rfl rfl
  · exact hs

/-! ### Hooks -/

section

variable {holds : Timeline (Job P) → Prop} {r' : Run P}

/-- What a hook asks for keeps a stable invariant of the timeline. -/
theorem writes (h : Stable fun r : Run P => holds r.timeline) (hwrites : r.Writes r')
    (hr : holds r.timeline ∧ r.phase = .hook) : holds r'.timeline ∧ r'.phase = .hook := by
  obtain ⟨hholds, hphase⟩ := hr
  refine ⟨?_, hwrites.steps_eq.2.trans hphase⟩
  cases hwrites with
  | aside => exact hholds
  | @state place => exact h.putState hholds place _
  | node running => simp [hphase] at running
  | child running => simp [hphase] at running

theorem openHook (h : Stable fun r : Run P => holds r.timeline) :
    Edit.Leads (fun r => holds r.timeline) (openHook : Edit (Run P) Unit)
      (fun _ r => holds r.timeline ∧ r.phase = .hook) (fun r => holds r.timeline) := by
  unfold Run.openHook
  refine .bind (fun _ r => holds r.timeline ∧ r.phase = .hook) (.modify _ fun _ hr => ⟨hr, rfl⟩)
    fun _ => .get fun r hr => ?_
  split
  · next place _ =>
      refine .bind (fun _ r => holds r.timeline ∧ r.phase = .hook) ?_ fun _ =>
        .pure _ fun _ hr => hr
      refine (materializeIn_leads ?_ place fun _ hr => hr.1).mono (fun _ hs => hs ▸ hr)
        fun _ _ hr => hr
      exact fun _ place state hr =>
        ⟨h.putState hr.1 place state, (phase_putState place state).trans hr.2⟩
  · exact .pure _ fun _ hs => hs ▸ hr

theorem runHook (h : Stable fun r : Run P => holds r.timeline) (library : Library P)
    (hook : Job P) :
    Edit.Leads (fun r => holds r.timeline) (runHook library hook) (fun _ r => holds r.timeline)
      (fun r => holds r.timeline) := by
  unfold Run.runHook
  refine .bind _ h.openHook fun _ =>
    .bind (fun _ r => holds r.timeline ∧ r.phase = .hook) ?_ fun _ =>
    (h.closeHook.leads fun _ hr => hr).mono (fun _ hr => hr.1) fun _ _ hr => hr
  exact performScript_leads (fun r => holds r.timeline ∧ r.phase = .hook)
    (fun _ request _ hr => h.writes (answer_writes (by simp [hr.2]) request) hr) _ fun _ hr => hr.1

/-- What is left of a step when its state was handed on. -/
theorem conclude (h : Stable fun r : Run P => holds r.timeline) (library : Library P)
    (label : Label) (n : Node (Job P)) (more : Bool) :
    Edit.Leads (fun r => holds r.timeline) (conclude library label n more)
      (fun _ r => holds r.timeline) (fun r => holds r.timeline) := by
  have hend : Edit.Leads (fun r => holds r.timeline)
      (endStep label n.name more : Edit (Run P) Bool) (fun _ r => holds r.timeline)
      (fun r => holds r.timeline) :=
    .bind _ ((h.concludeStep label n.name more).leads fun _ hr => hr) fun _ => .pure _ fun _ hr => hr
  unfold Run.conclude
  split
  · next hook _ => exact .bind _ (h.runHook library hook) fun _ => hend
  · exact hend

end

end Stable

namespace Lasting

variable {inv : Run P → Prop}

theorem stable (h : Lasting inv) : Stable inv := ⟨h.congr, h.modifyNode⟩

theorem duplicateNode (h : Lasting inv) (id : NodeId) :
    Edit.Keeps inv (duplicateNode id : Edit (Run P) Unit) := by
  refine .atomic fun s a next hs heq => ?_
  obtain ⟨⟨copy, timeline⟩, hdup, heq⟩ := exists_of_bind_eq_ok heq
  obtain ⟨-, rfl⟩ := Prod.mk.inj (Except.ok.inj heq)
  exact h.duplicate hs hdup

theorem closeStep (h : Lasting inv) (id : NodeId) :
    Edit.Keeps inv (closeStep id : Edit (Run P) (Node (Job P) × Bool)) := by
  have hrecord : ∀ (n : Node (Job P)) (live : Snapshot), Edit.Keeps inv
      (Run.recordAndHandOver id live >>= fun more => pure (n, more) : Edit (Run P) _) :=
    fun n live => .bind (h.stable.recordAndHandOver id live) fun more => .pure _
  unfold Run.closeStep
  refine .bind (h.stable.setPhase _) fun _ => .get fun r => .bind (.ofExcept _) fun n =>
    .bind (h.stable.takeState id) fun live => ?_
  split
  · exact .bind (h.duplicateNode id) fun _ => hrecord n live
  · exact hrecord n live

end Lasting

end Run

end Chronicle
