import Chronicle.Proofs.Run.Driven
import Mathlib.Data.List.Chain
/-!
The steps of a run as they were made.

A `Visit` is one step: the run in which it was begun, the snapshot that its program began on, and
what the step came to.  A run that is between two steps or finished is told by its visits
(`Standing`): every node of a visit holds the record of what the program left, every visit hands
its state on to the next one, and the last one to the next step or to the end of the run.

A step adds one visit to the tale (`Standing.step`), and a request aside of the steps changes
nothing in it (`Standing.aside`).
-/

namespace Chronicle

namespace Run

variable {P : Type} {library : Library P} {r r' : Run P} {initial : Snapshot}

/-- The state at work. -/
def snapshotAtWork (r : Run P) : Except EngineError Snapshot := (r.stateAtWork .snapshot).map (·.2)

/-- One step of a run: the run in which it is begun, the snapshot that its program begins on, and
what it comes to. -/
structure Visit (P : Type) where
  run : Run P
  given : Snapshot
  work : Work P

namespace Visit

/-- The node of the step. -/
def id (v : Visit P) : NodeId := v.run.current

/-- The snapshot when the program is done. -/
def left (v : Visit P) : Snapshot := v.work.snapshot

/-- The step was made, on the way to `r`, as the visit tells: its program began on `given` and left
`left`, by its own requests and nothing else, and the record of its node is `left`. -/
structure Made (library : Library P) (r : Run P) (v : Visit P) : Prop where
  given : v.run.opened.snapshotAtWork = .ok v.given
  left : (v.run.returned library).snapshotAtWork = .ok v.left
  work : v.work = v.run.workOf library v.work.job v.given
  node : r.timeline.core? v.id = some (v.work.node.recorded v.left.toData)

/-- A hook of the step finds `s₀` at work, and by its own requests makes `s` of it. -/
structure Hooked (library : Library P) (v : Visit P) (hook : Job P) (s₀ s : Snapshot) : Prop where
  given : (v.run.hookOpened library).snapshotAtWork = .ok s₀
  left : s = (hook.program library).change (v.run.hookOpened library) s₀

/-- The step hands on `s`: what it left is archived and materialized, and changed by the last hook
that it scheduled, if any. -/
def HandsOn (library : Library P) (v : Visit P) (s : Snapshot) : Prop :=
  ∃ data s₀, v.left.archive = .ok data ∧ data.materialize = .ok s₀ ∧
    match v.work.hook with
    | none => s = s₀
    | some hook => v.Hooked library hook s₀ s

/-- The step, as the last one, leaves `final`: what it left is archived; only a hook makes it
materialize once more, and then the data of what the hook made of it are left. -/
def Ends (library : Library P) (v : Visit P) (final : SnapshotData) : Prop :=
  ∃ data, v.left.archive = .ok data ∧
    match v.work.hook with
    | none => final = data
    | some hook => ∃ s₀ s, data.materialize = .ok s₀ ∧ v.Hooked library hook s₀ s ∧
        final = s.toData

theorem Made.frame {v : Visit P} (h : v.Made library r)
    (hcore : r'.timeline.core? v.id = r.timeline.core? v.id) : v.Made library r' :=
  ⟨h.given, h.left, h.work, hcore.trans h.node⟩

end Visit

/-- The visits tell a run that began on `initial`, up to `r`. -/
structure Told (library : Library P) (initial : Snapshot) (visits : List (Visit P)) (r : Run P) :
    Prop where
  made : ∀ v ∈ visits, v.Made library r
  first : ∀ v ∈ visits.head?, v.given = initial
  chain : visits.IsChain fun v next => v.HandsOn library next.given

/-- The state that the next step finds is the one that the last visit hands on. -/
def Awaited (library : Library P) (initial : Snapshot) (visits : List (Visit P))
    (state : SnapshotState) : Prop :=
  (visits = [] → state = .live initial) ∧
    ∀ v ∈ visits.getLast?, ∀ s, state.opens = .ok s → v.HandsOn library s

/-- The invariant of a run that is driven; `begun` are the runs in which its steps were begun. -/
inductive Standing (library : Library P) (initial : Snapshot) (begun : List (Run P)) (r : Run P) :
    Prop
  | idle (visits : List (Visit P)) (jobs : List (Job P)) (state : SnapshotState)
      (runs : visits.map (·.run) = begun) (told : Told library initial visits r)
      (between : r.Between (visits.map (·.id)) jobs state)
      (awaited : Awaited library initial visits state)
  | finished (visits : List (Visit P)) (data : SnapshotData) (last : Visit P)
      (runs : visits.map (·.run) = begun) (told : Told library initial visits r)
      (closed : r.Closed (visits.map (·.id)) (.archived data))
      (isLast : visits.getLast? = some last) (ends : last.Ends library data)
  | aborted (phase : r.phase = .aborted)

/-! ### The beginning -/

theorem between_ofJob (initial : Snapshot) (root : Job P) (config : RunConfig) :
    (ofJob initial root config).Between [] [root] (.live initial) := by
  refine ⟨rfl, ⟨⟨_, [Timeline.root], Timeline.shape_ofRoot root (.live initial), rfl, ?_⟩, ?_, ?_⟩,
    ?_, rfl, rfl⟩
  · exact .next rfl ⟨rfl, rfl⟩ .nil
  · simp
  · simp
  · simp

theorem standing_ofJob (library : Library P) (initial : Snapshot) (root : Job P)
    (config : RunConfig) : Standing library initial [] (ofJob initial root config) := by
  refine .idle [] [root] (.live initial) rfl ⟨by simp, by simp, .nil⟩
    (between_ofJob initial root config) ⟨fun _ => rfl, by simp⟩

/-! ### The end -/

/-- At the end of a run are the data that were left there. -/
theorem Closed.finalSnapshot?_eq {done : List NodeId} {final : SnapshotData}
    (h : r.Closed done (.archived final)) : r.finalSnapshot? = some final := by
  obtain ⟨⟨f, ids, -, -, hfront⟩, -, -⟩ := h.stands
  cases hfront with
  | last hfinal => rw [finalSnapshot?, hfinal, SnapshotState.archived?]

/-! ### One step -/

theorem AtWork.snapshotAtWork_eq {done : List NodeId} {rest : List (Job P)} {w : Work P}
    (h : r.AtWork done rest w) : r.snapshotAtWork = .ok w.snapshot := by
  rw [snapshotAtWork, h.stateAtWork_eq]
  rfl

/-- The visit of a step whose stages succeed. -/
theorem Passes.made {done : List NodeId} {job : Job P} {rest : List (Job P)}
    {state state' : SnapshotState} {s : Snapshot} {w : Work P} {data : SnapshotData}
    (hp : Passes library r done job rest state s w data state')
    (h : r.Stands done (job :: rest) state)
    (hcore : r'.timeline.core? r.current = some (w.node.recorded w.snapshot.toData)) :
    Visit.Made library r' ⟨r, s, w⟩ := by
  obtain ⟨hopens, rfl, -, -, -, -⟩ := hp
  obtain ⟨-, hwork, -⟩ := h.opened_eq hopens
  obtain ⟨-, hreturned, -⟩ := h.returned_eq hopens library
  refine ⟨hwork.snapshotAtWork_eq, hreturned.snapshotAtWork_eq, ?_, hcore⟩
  show r.workOf library job s = r.workOf library (r.workOf library job s).job s
  rw [show (r.workOf library job s).job = job from Script.work_job _ _ _]

/-- A step asked for no repetition of the root, and its state could be archived. -/
theorem archive_of_closes {w : Work P} {first : Bool} {data : SnapshotData}
    (h : w.closes first = .ok data) : w.snapshot.archive = .ok data := by
  unfold Work.closes at h
  split at h
  · simp at h
  · exact h

/-- What closing a step comes to, unless it is the root that is to be repeated. -/
theorem closes_eq_archive {w : Work P} {done : List NodeId} (h : w.repeats = true → done ≠ []) :
    w.closes done.isEmpty = w.snapshot.archive := by
  unfold Work.closes
  rw [if_neg]
  intro hmem
  obtain ⟨hrepeats, hfirst⟩ := hmem
  exact h hrepeats (List.isEmpty_iff.mp hfirst)

/-- A hook begins on the state that was handed on. -/
theorem Passes.hookOpened_eq {done : List NodeId} {job : Job P} {rest : List (Job P)}
    {state state' : SnapshotState} {s s₀ : Snapshot} {w : Work P} {data : SnapshotData}
    (hp : Passes library r done job rest state s w data state')
    (h : r.Stands done (job :: rest) state) (hmaterialize : data.materialize = .ok s₀) :
    (r.hookOpened library).snapshotAtWork = .ok s₀ := by
  obtain ⟨hopens, rfl, -, hcloses, -, -⟩ := hp
  obtain ⟨n, -, -, hstands, -⟩ := h.handedOn_eq hopens hcloses
  obtain ⟨-, hat, -⟩ := hstands.hookOpened_eq hmaterialize
  obtain ⟨place, hwork, -⟩ := hat.exists_place
  rw [snapshotAtWork, hwork]
  rfl

/-- A step that is not the last one hands on what the next one finds. -/
theorem Passes.handsOn {done : List NodeId} {job : Job P} {rest : List (Job P)}
    {state state' : SnapshotState} {s : Snapshot} {w : Work P} {data : SnapshotData}
    (hp : Passes library r done job rest state s w data state')
    (h : r.Stands done (job :: rest) state) (hmore : w.next ++ rest ≠ []) :
    ∀ s', state'.opens = .ok s' → Visit.HandsOn library ⟨r, s, w⟩ s' := by
  intro s' hopens
  have harchive := archive_of_closes hp.closes
  have hhands := hp.hands
  rw [List.isEmpty_eq_false_iff.mpr hmore] at hhands
  cases hhook : w.hook with
  | none =>
      rw [hhook] at hhands
      obtain rfl : SnapshotState.archived data = state' := Except.ok.inj hhands
      exact ⟨data, s', harchive, hopens, by simp [hhook]⟩
  | some hook =>
      rw [hhook] at hhands
      obtain ⟨s₀, hmaterialize, rfl⟩ := handOver_some.mp hhands
      refine ⟨data, s₀, harchive, hmaterialize, ?_⟩
      simp only [hhook]
      exact ⟨hp.hookOpened_eq h hmaterialize, (Except.ok.inj hopens).symm⟩

/-- The last step leaves the data at the end of the run. -/
theorem Passes.ends {done : List NodeId} {job : Job P} {rest : List (Job P)}
    {state state' : SnapshotState} {s : Snapshot} {w : Work P} {data : SnapshotData}
    (hp : Passes library r done job rest state s w data state')
    (h : r.Stands done (job :: rest) state) (hlast : w.next ++ rest = []) :
    ∃ final, state' = .archived final ∧ Visit.Ends library ⟨r, s, w⟩ final := by
  have harchive := archive_of_closes hp.closes
  have hhands := hp.hands
  rw [hlast, List.isEmpty_nil] at hhands
  cases hhook : w.hook with
  | none =>
      rw [hhook] at hhands
      obtain rfl : SnapshotState.archived data = state' := Except.ok.inj hhands
      exact ⟨data, rfl, data, harchive, by simp [hhook]⟩
  | some hook =>
      rw [hhook] at hhands
      obtain ⟨s₀, hmaterialize, rfl⟩ := handOver_some.mp hhands
      refine ⟨_, rfl, data, harchive, ?_⟩
      simp only [hhook]
      exact ⟨s₀, _, hmaterialize, ⟨hp.hookOpened_eq h hmaterialize, rfl⟩, rfl⟩

/-- A visit of the current node continues the tale. -/
theorem Told.visit {visits : List (Visit P)} {state : SnapshotState} {v : Visit P}
    (h : Told library initial visits r) (hawaited : Awaited library initial visits state)
    (hopens : state.opens = .ok v.given) (hmade : v.Made library r')
    (hkept : ∀ id ∈ visits.map (·.id), r'.timeline.core? id = r.timeline.core? id) :
    Told library initial (visits ++ [v]) r' := by
  refine ⟨?_, ?_, ?_⟩
  · intro u hu
    rcases List.mem_append.mp hu with hu | hu
    · exact (h.made u hu).frame (hkept _ (List.mem_map_of_mem hu))
    · rw [List.mem_singleton.mp hu]
      exact hmade
  · intro u hu
    cases visits with
    | nil =>
        rw [hawaited.1 rfl] at hopens
        obtain rfl : v = u := by simpa using hu
        exact (Except.ok.inj hopens).symm
    | cons first visits => exact h.first u hu
  · refine List.isChain_append.mpr ⟨h.chain, .singleton v, fun u hu next hnext => ?_⟩
    obtain rfl : v = next := by simpa using hnext
    exact hawaited.2 u hu v.given hopens

/-- A step keeps the invariant. -/
theorem Standing.step {begun : List (Run P)} (h : Standing library initial begun r)
    (hidle : r.phase = .idle) :
    Standing library initial (begun ++ [r]) ((step library).apply r).2 := by
  cases h with
  | finished _ _ _ _ _ closed => simp [closed.phase] at hidle
  | aborted phase => simp [phase] at hidle
  | idle visits jobs state runs told between awaited =>
      cases jobs with
      | nil => exact absurd rfl between.waiting
      | cons job rest =>
          cases hstep : (Run.step library).apply r with
          | mk result r' =>
              cases result with
              | error e =>
                  -- A step that fails aborts the run.
                  refine .aborted ?_
                  simp only [Run.step, Edit.apply_mk, hidle] at hstep
                  split at hstep
                  · rw [← (Prod.mk.inj hstep).2]
                  · next hrun => exact absurd hstep (hrun e r')
              | ok more =>
                  obtain ⟨s, w, data, state', hp⟩ := between.exists_passes hstep
                  obtain ⟨r₁, hstep', hrows, hkept, hcore⟩ := between.advance hp
                  obtain rfl : r₁ = r' := congrArg Prod.snd (hstep'.symm.trans hstep)
                  have htold := told.visit awaited hp.opens (hp.made between.stands hcore) hkept
                  have hruns : (visits ++ [(⟨r, s, w⟩ : Visit P)]).map (·.run) = begun ++ [r] := by
                    simp [runs]
                  unfold Rows at hrows
                  split at hrows
                  · next hlast =>
                      obtain ⟨final, rfl, hends⟩ := hp.ends between.stands hlast
                      refine .finished _ final ⟨r, s, w⟩ hruns htold ?_ (by simp) hends
                      simpa [Visit.id] using hrows
                  · next hmore =>
                      refine .idle _ _ state' hruns htold (by simpa [Visit.id] using hrows)
                        ⟨by simp, fun v hv => ?_⟩
                      obtain rfl : ⟨r, s, w⟩ = v := by simpa using hv
                      exact hp.handsOn between.stands hmore

/-! ### Aside of the steps -/

theorem Between.start_eq {done : List NodeId} {jobs : List (Job P)} {state : SnapshotState}
    (h : r.Between done jobs state) : r.start = r := by
  unfold start
  split
  · next hfirst =>
      -- No step was counted, so the current node is the first of all, which is the root.
      obtain ⟨⟨f, ids, hshape, horder, hfront⟩, -, -⟩ := h.stands
      have hdone : done = [] := List.eq_nil_of_length_eq_zero (h.steps.symm.trans hfirst.2)
      obtain ⟨below, rfl⟩ := hshape.root
      cases hfront with
      | next =>
          simp only [hdone, Forest.order, List.nil_append, List.cons.injEq] at horder
          rw [horder.1]
      | last => exact absurd rfl h.waiting
  · rfl

/-- What is asked for aside of the steps leaves a run between two steps as it is. -/
theorem Between.aside {β : Type} {done : List NodeId} {jobs : List (Job P)} {state : SnapshotState}
    (h : r.Between done jobs state) (request : Request P β) :
    (answer .refused β request r).2.timeline = r.timeline ∧
      (answer .refused β request r).2.Between done jobs state := by
  rcases answer_aside (r := r) (by simp [h.phase]) (by simp [h.phase]) request with
    hstart | ⟨scratch, notes, hsame⟩
  · rw [hstart, h.start_eq]
    exact ⟨rfl, h⟩
  · rw [hsame]
    exact ⟨rfl, h.phase, h.stands.congr rfl rfl rfl, h.waiting, h.steps, h.events⟩

theorem Closed.aside {β : Type} {done : List NodeId} {state : SnapshotState}
    (h : r.Closed done state) (request : Request P β) :
    (answer .refused β request r).2.timeline = r.timeline ∧
      (answer .refused β request r).2.Closed done state := by
  rcases answer_aside (r := r) (by simp [h.phase]) (by simp [h.phase]) request with
    hstart | ⟨scratch, notes, hsame⟩
  · rw [hstart, start, if_neg (by simp [h.phase])]
    exact ⟨rfl, h⟩
  · rw [hsame]
    exact ⟨rfl, h.phase, h.stands.congr rfl rfl rfl, h.archived, h.steps, h.events⟩

theorem Told.frame {visits : List (Visit P)} (h : Told library initial visits r)
    (htimeline : r'.timeline = r.timeline) : Told library initial visits r' :=
  ⟨fun v hv => (h.made v hv).frame (by rw [htimeline]), h.first, h.chain⟩

/-- What is asked for aside of the steps keeps the invariant. -/
theorem Standing.aside {β : Type} {begun : List (Run P)} (h : Standing library initial begun r)
    (request : Request P β) : Standing library initial begun (answer .refused β request r).2 := by
  cases h with
  | idle visits jobs state runs told between awaited =>
      obtain ⟨htimeline, hbetween⟩ := between.aside request
      exact .idle visits jobs state runs (told.frame htimeline) hbetween awaited
  | finished visits data last runs told closed isLast ends =>
      obtain ⟨htimeline, hclosed⟩ := closed.aside request
      exact .finished visits data last runs (told.frame htimeline) hclosed isLast ends
  | aborted phase =>
      refine .aborted ?_
      rcases answer_aside (r := r) (by simp [phase]) (by simp [phase]) request with
        hstart | ⟨scratch, notes, hsame⟩
      · rw [hstart, start, if_neg (by simp [phase])]
        exact phase
      · rw [hsame]
        exact phase

/-- **Every run that is driven can be told.** -/
theorem Driven.standing {root : Job P} {config : RunConfig} {begun : List (Run P)}
    (h : Driven library (ofJob initial root config) begun r) :
    Standing library initial begun r := by
  induction h with
  | refl => exact standing_ofJob library initial root config
  | step _ hidle ih => exact ih.step hidle
  | aside _ request ih => exact ih.aside request

end Run

end Chronicle
