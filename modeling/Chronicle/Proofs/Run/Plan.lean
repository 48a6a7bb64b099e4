import Chronicle.Proofs.Run.Ending
import Chronicle.Proofs.Run.Failing
import Chronicle.Proofs.Run.Programs
/-!
Runs that go as planned.

If the outcome of every step is known (`Job.Makes`), so is the whole run.  A `Plan` is what is left
of a run then: how many steps were made, which jobs are still to do, and on which snapshot.  One
step of the plan takes the first job away and puts what it schedules in its place
(`Plan.Writes`); the last one leaves data (`Plan.Concludes`).  Either way the step leaves an entry
in its node, and all entries together are the log of the plan (`Plan.Runs`).

A run that follows a plan steps as the plan does (`Follows.writes`, `Follows.concludes`).  So it is
finished by `execute` if only enough batches are allowed (`Follows.execute_eq`), and however it is
driven, it never fails, and ends with the log and the data of the plan (`Driven.planned`).
-/

namespace Chronicle

variable {P : Type}

/-- What is to be done: how many steps were made, the jobs to come, and the snapshot on which the
first of them begins. -/
structure Plan (P : Type) where
  made : Nat
  jobs : List (Job P)
  snapshot : Snapshot

namespace Plan

/-- What follows the first job: what it schedules, and its repetition. -/
def following (job : Job P) (kids : List (Job P)) (again : Bool) (rest : List (Job P)) :
    List (Job P) :=
  kids ++ (if again then [job] else []) ++ rest

/-- What a step leaves in its node: its job, and the record of what the job made. -/
structure Entry (P : Type) where
  job : Job P
  record : SnapshotData

/-- The first job is done and leaves its entry, and others are to come.  The first step of all is
not repeated. -/
inductive Writes (library : Library P) : Plan P → Entry P → Plan P → Prop
  | step {made : Nat} {job : Job P} {rest kids : List (Job P)} {again : Bool}
      {s s₁ s₂ : Snapshot} {data : SnapshotData}
      (makes : job.Makes library s kids again s₁) (repeats : again = true → made ≠ 0)
      (archive : s₁.archive = .ok data) (materialize : data.materialize = .ok s₂)
      (more : following job kids again rest ≠ []) :
      Writes library ⟨made, job :: rest, s⟩ ⟨job, s₁.toData⟩
        ⟨made + 1, following job kids again rest, s₂⟩

/-- The only job is done, and leaves its entry and the data. -/
inductive Concludes (library : Library P) : Plan P → Entry P → SnapshotData → Prop
  | step {made : Nat} {job : Job P} {s s₁ : Snapshot} {data : SnapshotData}
      (makes : job.Makes library s [] false s₁) (archive : s₁.archive = .ok data) :
      Concludes library ⟨made, [job], s⟩ ⟨job, s₁.toData⟩ data

/-- Some number of steps, one after the other, and what they leave. -/
inductive Log (library : Library P) : Plan P → List (Entry P) → Plan P → Prop
  | nil (p : Plan P) : Log library p [] p
  | cons {p p' p'' : Plan P} {e : Entry P} {log : List (Entry P)} (first : Writes library p e p')
      (rest : Log library p' log p'') : Log library p (e :: log) p''

/-- The plan comes to an end, with the data, and this is what its steps leave. -/
inductive Runs (library : Library P) (final : SnapshotData) : Plan P → List (Entry P) → Prop
  | last {p : Plan P} {e : Entry P} (concludes : Concludes library p e final) :
      Runs library final p [e]
  | step {p p' : Plan P} {e : Entry P} {log : List (Entry P)} (writes : Writes library p e p')
      (rest : Runs library final p' log) : Runs library final p (e :: log)

variable {library : Library P} {p p' p'' : Plan P} {e : Entry P} {log log' : List (Entry P)}
  {final : SnapshotData}

theorem Log.single (h : Writes library p e p') : Log library p [e] p' := .cons h (.nil p')

theorem Log.trans (h : Log library p log p') (h' : Log library p' log' p'') :
    Log library p (log ++ log') p'' := by
  induction h with
  | nil => exact h'
  | cons first _ ih => exact .cons first (ih h')

theorem Log.runs (h : Log library p log p') (h' : Runs library final p' log') :
    Runs library final p (log ++ log') := by
  induction h with
  | nil => exact h'
  | cons first _ ih => exact .step first (ih h')

end Plan

namespace Timeline

variable {t t' : Timeline (Job P)} {id : NodeId} {e : Plan.Entry P}

/-- The node holds the entry of its step. -/
def HasEntry (t : Timeline (Job P)) (id : NodeId) (e : Plan.Entry P) : Prop :=
  ∃ n, t.core? id = some n ∧ n.program = e.job ∧ n.status = .archived ∧
    n.state = .archived e.record

theorem HasEntry.frame (h : t.HasEntry id e) (hcore : t'.core? id = t.core? id) :
    t'.HasEntry id e := by
  obtain ⟨n, hn, hrest⟩ := h
  exact ⟨n, hcore.trans hn, hrest⟩

theorem HasEntry.record (h : t.HasEntry id e) : t.HasRecord id e.record := by
  obtain ⟨n, hn, -, hrest⟩ := h
  exact ⟨n, hn, hrest⟩

theorem HasEntry.exists_node (h : t.HasEntry id e) :
    ∃ n, t.node? id = some n ∧ n.program = e.job := by
  obtain ⟨n, hcore, hjob, -⟩ := h
  obtain ⟨n, hn, rfl⟩ := Option.map_eq_some_iff.mp hcore
  exact ⟨n, hn, hjob⟩

end Timeline

namespace Run

variable {library : Library P} {r r' : Run P} {p p' : Plan P} {final : SnapshotData}
  {ids : List NodeId} {log rest whole : List (Plan.Entry P)}

/-! ### The log of a run -/

/-- The nodes hold these entries, one after the other. -/
def Logged (r : Run P) (ids : List NodeId) (log : List (Plan.Entry P)) : Prop :=
  List.Forall₂ r.timeline.HasEntry ids log

theorem Logged.frame (h : r.Logged ids log)
    (hkept : ∀ q ∈ ids, r'.timeline.core? q = r.timeline.core? q) : r'.Logged ids log := by
  unfold Logged at h
  induction h with
  | nil => exact .nil
  | cons hfirst _ ih =>
      exact .cons (hfirst.frame (hkept _ List.mem_cons_self))
        (ih fun q hq => hkept q (List.mem_cons_of_mem _ hq))

theorem Logged.snoc {id : NodeId} {e : Plan.Entry P} (h : r.Logged ids log)
    (hkept : ∀ q ∈ ids, r'.timeline.core? q = r.timeline.core? q)
    (he : r'.timeline.HasEntry id e) : r'.Logged (ids ++ [id]) (log ++ [e]) :=
  List.rel_append (h.frame hkept) (.cons he .nil)

/-- The run is between two steps; what it is to do is the plan, and what it has left is the log. -/
def Follows (r : Run P) (p : Plan P) (log : List (Plan.Entry P)) : Prop :=
  ∃ done state, r.Between done p.jobs state ∧ state.opens = .ok p.snapshot ∧
    done.length = p.made ∧ r.Logged done log

/-- The run is finished, and has left the data and the log. -/
def Left (r : Run P) (final : SnapshotData) (log : List (Plan.Entry P)) : Prop :=
  ∃ done, r.Closed done (.archived final) ∧ r.Logged done log

theorem Follows.phase_eq (h : r.Follows p log) : r.phase = .idle := by
  obtain ⟨done, state, hbetween, -⟩ := h
  exact hbetween.phase

theorem Follows.start_eq (h : r.Follows p log) : r.start = r := by
  obtain ⟨done, state, hbetween, -⟩ := h
  exact hbetween.start_eq

theorem Left.phase_eq (h : r.Left final log) : r.phase = .finished := by
  obtain ⟨done, hclosed, -⟩ := h
  exact hclosed.phase

theorem Left.finalSnapshot?_eq (h : r.Left final log) : r.finalSnapshot? = some final := by
  obtain ⟨done, hclosed, -⟩ := h
  exact hclosed.finalSnapshot?_eq

theorem Follows.aside {β : Type} (h : r.Follows p log) (request : Request P β) :
    (answer .refused β request r).2.Follows p log := by
  obtain ⟨done, state, hbetween, hopens, hmade, hlogged⟩ := h
  obtain ⟨htimeline, hbetween⟩ := hbetween.aside request
  exact ⟨done, state, hbetween, hopens, hmade, hlogged.frame fun _ _ => by rw [htimeline]⟩

theorem Left.aside {β : Type} (h : r.Left final log) (request : Request P β) :
    (answer .refused β request r).2.Left final log := by
  obtain ⟨done, hclosed, hlogged⟩ := h
  obtain ⟨htimeline, hclosed⟩ := hclosed.aside request
  exact ⟨done, hclosed, hlogged.frame fun _ _ => by rw [htimeline]⟩

/-! ### One step of the plan -/

/-- The stages of a step whose program succeeds and schedules no hook. -/
theorem passes_of_program {done : List NodeId} {job : Job P} {rest kids : List (Job P)}
    {state : SnapshotState} {s s₁ : Snapshot} {again : Bool} {name : String} {data : SnapshotData}
    (hopens : state.opens = .ok s)
    (hprogram : ((performScript .refused (job.program library)).apply r.opened).1 = .ok ())
    (hwork : r.workOf library job s = ⟨job, r.nextLabel, name, s₁, kids, none, again⟩)
    (hrepeats : again = true → done ≠ []) (harchive : s₁.archive = .ok data) :
    Passes library r done job rest state s ⟨job, r.nextLabel, name, s₁, kids, none, again⟩ data
      (.archived data) := by
  exact ⟨hopens, hwork.symm, hprogram, (closes_eq_archive hrepeats).trans harchive, rfl,
    fun _ hc => by simp at hc⟩

/-- What the program of a step comes to whose outcome is known. -/
theorem Between.exists_made {done : List NodeId} {job : Job P} {rest kids : List (Job P)}
    {state : SnapshotState} {s s₁ : Snapshot} {again : Bool}
    (h : r.Between done (job :: rest) state) (hopens : state.opens = .ok s)
    (hmakes : job.Makes library s kids again s₁) :
    ∃ name, ((performScript .refused (job.program library)).apply r.opened).1 = .ok () ∧
      r.workOf library job s = ⟨job, r.nextLabel, name, s₁, kids, none, again⟩ := by
  obtain ⟨-, hwork, -⟩ := h.stands.opened_eq hopens
  obtain ⟨name, hdoes⟩ := hmakes r.nextLabel
  exact ⟨name, hdoes _ _ _ hwork⟩

/-- The stages of a step whose outcome is known. -/
theorem Between.passes {done : List NodeId} {job : Job P} {rest kids : List (Job P)}
    {state : SnapshotState} {s s₁ : Snapshot} {again : Bool} {data : SnapshotData}
    (h : r.Between done (job :: rest) state) (hopens : state.opens = .ok s)
    (hmakes : job.Makes library s kids again s₁) (hrepeats : again = true → done ≠ [])
    (harchive : s₁.archive = .ok data) :
    ∃ w, Passes library r done job rest state s w data (.archived data) ∧
      w.next ++ rest = Plan.following job kids again rest ∧ w.job = job ∧ w.snapshot = s₁ := by
  obtain ⟨name, hprogram, hw⟩ := h.exists_made hopens hmakes
  exact ⟨_, passes_of_program hopens hprogram hw hrepeats harchive, rfl, rfl, rfl⟩

/-- A step fails if the archive refuses what its job makes. -/
theorem Between.exists_refused_of_makes {done : List NodeId} {job : Job P}
    {rest kids : List (Job P)} {state : SnapshotState} {s s₁ : Snapshot} {again : Bool}
    {e : EngineError} (h : r.Between done (job :: rest) state) (hopens : state.opens = .ok s)
    (hmakes : job.Makes library s kids again s₁) (hrepeats : again = true → done ≠ [])
    (harchive : s₁.archive = .error e) : ∃ r', (step library).apply r = (.error e, r') := by
  obtain ⟨name, hprogram, hw⟩ := h.exists_made hopens hmakes
  exact h.exists_refused hopens hprogram (hw ▸ hrepeats) (hw ▸ harchive)

/-- **A run that follows a plan steps as the plan does**, and the step leaves its entry. -/
theorem Follows.writes {e : Plan.Entry P} (h : r.Follows p log)
    (hwrites : Plan.Writes library p e p') :
    ∃ r', (step library).apply r = (.ok true, r') ∧ r'.Follows p' (log ++ [e]) := by
  obtain ⟨done, state, hbetween, hopens, hmade, hlogged⟩ := h
  cases hwrites with
  | @step made job rest kids again s s₁ s₂ data makes repeats archive materialize more =>
      have hrepeats : again = true → done ≠ [] := by
        intro hagain heq
        subst heq
        exact repeats hagain hmade.symm
      obtain ⟨w, hpasses, hw, hjob, hsnapshot⟩ := hbetween.passes hopens makes hrepeats archive
      obtain ⟨r', hstep, hrows, hkept, hcore⟩ := hbetween.advance hpasses
      rw [hw] at hstep hrows
      rw [Rows, if_neg more] at hrows
      rw [List.isEmpty_eq_false_iff.mpr more] at hstep
      have hentry : r'.timeline.HasEntry r.current ⟨job, s₁.toData⟩ :=
        ⟨_, hcore, hjob, rfl, by rw [← hsnapshot]; rfl⟩
      refine ⟨r', hstep, done ++ [r.current], .archived data, hrows, materialize, ?_,
        hlogged.snoc hkept hentry⟩
      rw [List.length_append, hmade, List.length_singleton]

/-- The same of the last step, after which the run is finished. -/
theorem Follows.concludes {e : Plan.Entry P} (h : r.Follows p log)
    (hconcludes : Plan.Concludes library p e final) :
    ∃ r', (Run.step library).apply r = (.ok false, r') ∧ r'.Left final (log ++ [e]) := by
  obtain ⟨done, state, hbetween, hopens, -, hlogged⟩ := h
  cases hconcludes with
  | @step made job s s₁ data makes archive =>
      obtain ⟨w, hpasses, hw, hjob, hsnapshot⟩ := hbetween.passes hopens makes (by simp) archive
      obtain ⟨r', hstep, hrows, hkept, hcore⟩ := hbetween.advance hpasses
      rw [hw] at hstep hrows
      have hentry : r'.timeline.HasEntry r.current ⟨job, s₁.toData⟩ :=
        ⟨_, hcore, hjob, rfl, by rw [← hsnapshot]; rfl⟩
      exact ⟨r', hstep, done ++ [r.current], hrows, hlogged.snoc hkept hentry⟩

/-! ### The whole plan -/

/-- The steps before the last one, and the last one. -/
theorem Follows.exists_stepsTo (h : r.Follows p log) (hruns : Plan.Runs library final p rest) :
    ∃ before r₁ last, before + 1 = rest.length ∧ StepsTo library before r r₁ ∧
      (step library).apply r₁ = (.ok false, last) ∧ last.Left final (log ++ rest) := by
  induction hruns generalizing r log with
  | last concludes =>
      obtain ⟨last, hstep, hleft⟩ := h.concludes concludes
      exact ⟨0, r, last, rfl, .refl r, hstep, hleft⟩
  | step writes _ ih =>
      obtain ⟨r', hstep, hfollows⟩ := h.writes writes
      obtain ⟨before, r₁, last, hlength, hsteps, hlast, hleft⟩ := ih hfollows
      rw [List.append_assoc] at hleft
      exact ⟨before + 1, r₁, last, congrArg (· + 1) hlength, .next hstep hsteps, hlast, hleft⟩

/-- **A run that follows a plan to its end is finished by `execute`.** -/
theorem Follows.execute_eq (h : r.Follows p log) (hruns : Plan.Runs library final p rest) :
    ∃ enough, ∀ rounds, enough ≤ rounds → ∃ r',
      (execute library rounds).apply r = (.ok .finished, r') ∧ r'.Left final (log ++ rest) := by
  obtain ⟨before, r₁, last, -, hsteps, hlast, hleft⟩ := h.exists_stepsTo hruns
  exact ⟨before + 1, fun rounds hrounds =>
    ⟨last, hsteps.execute_eq hlast .finished h.phase_eq h.start_eq hrounds, hleft⟩⟩

/-! ### Driven in any way -/

/-- The run follows a plan that comes to an end, or has come there, and all that it leaves is the
log. -/
inductive Planned (library : Library P) (final : SnapshotData) (whole : List (Plan.Entry P))
    (r : Run P) : Prop
  | waits {p : Plan P} {log rest : List (Plan.Entry P)} (follows : r.Follows p log)
      (runs : Plan.Runs library final p rest) (all : whole = log ++ rest)
  | finished (left : r.Left final whole)

theorem Planned.step (h : Planned library final whole r) (hidle : r.phase = .idle) :
    Planned library final whole ((step library).apply r).2 := by
  cases h with
  | waits follows runs all =>
      cases runs with
      | last concludes =>
          obtain ⟨r', hstep, hleft⟩ := follows.concludes concludes
          rw [hstep]
          exact .finished (all ▸ hleft)
      | step writes rest =>
          obtain ⟨r', hstep, hfollows⟩ := follows.writes writes
          rw [hstep]
          exact .waits hfollows rest (by simp [all])
  | finished left => simp [left.phase_eq] at hidle

theorem Planned.aside {β : Type} (h : Planned library final whole r) (request : Request P β) :
    Planned library final whole (answer .refused β request r).2 := by
  cases h with
  | waits follows runs all => exact .waits (follows.aside request) runs all
  | finished left => exact .finished (left.aside request)

/-- **However a run with a plan is driven, it goes as planned.** -/
theorem Driven.planned {begun : List (Run P)} {r₀ : Run P} (h : Driven library r₀ begun r)
    (hplanned : Planned library final whole r₀) : Planned library final whole r := by
  induction h with
  | refl => exact hplanned
  | step _ hidle ih => exact ih.step hidle
  | aside _ request ih => exact ih.aside request

/-- A run that begins follows the plan that its root makes. -/
theorem follows_ofJob (initial : Snapshot) (root : Job P) (config : RunConfig) :
    (ofJob initial root config).Follows ⟨0, [root], initial⟩ [] :=
  ⟨[], .live initial, between_ofJob initial root config, rfl, rfl, .nil⟩

theorem planned_ofJob {initial : Snapshot} {root : Job P} (config : RunConfig)
    (h : Plan.Runs library final ⟨0, [root], initial⟩ whole) :
    Planned library final whole (ofJob initial root config) :=
  .waits (follows_ofJob initial root config) h rfl

/-- The run comes to the data: it is finished by `execute` if enough batches are allowed, and
however it is driven, it is not aborted and has left the data when it is finished. -/
structure ComesTo (library : Library P) (r₀ : Run P) (final : SnapshotData) : Prop where
  execute : ∃ enough, ∀ rounds, enough ≤ rounds → ∃ r,
    (Run.execute library rounds).apply r₀ = (.ok .finished, r) ∧ r.finalSnapshot? = some final
  driven : ∀ r, r₀.Reaches library r →
    r.phase ≠ .aborted ∧ (r.phase = .finished → r.finalSnapshot? = some final)

/-- **A run comes to what its plan comes to.** -/
theorem comesTo_ofJob {initial : Snapshot} {root : Job P} (config : RunConfig)
    (h : Plan.Runs library final ⟨0, [root], initial⟩ whole) :
    ComesTo library (ofJob initial root config) final := by
  constructor
  · obtain ⟨enough, hexecute⟩ := (follows_ofJob initial root config).execute_eq h
    refine ⟨enough, fun rounds hrounds => ?_⟩
    obtain ⟨r, hrun, hleft⟩ := hexecute rounds hrounds
    exact ⟨r, hrun, hleft.finalSnapshot?_eq⟩
  · intro r hreaches
    obtain ⟨begun, hdriven⟩ := hreaches.driven
    cases hdriven.planned (planned_ofJob config h) with
    | waits follows => simp [follows.phase_eq]
    | finished left => simp [left.phase_eq, left.finalSnapshot?_eq]

end Run

end Chronicle
