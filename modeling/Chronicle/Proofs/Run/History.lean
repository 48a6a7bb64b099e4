import Chronicle.Proofs.Run.Records
/-!
The history of a run.

`Seen` lists all that can be looked at of a run, in order: the run between two steps, and while a
step is made the run after each of its stages and whatever its program and its hook meet between
two requests (`stepMoments`), also when the step fails halfway.  Every `Moment` of a run is in such
a list.

From each of these runs to the next the archived nodes stay as they are (`chain_step`), and so they
do from each to all that come later: `records_are_final`.
-/

namespace Chronicle

variable {P α β σ : Type}

namespace Action

/-- The states that are met while an action is performed, in order. -/
def met (answer : (β : Type) → Request P β → σ → β × σ) : Action P α → σ → List σ
  | done _, s => [s]
  | ask request next, s =>
    s :: (next (answer _ request s).1).met answer (answer _ request s).2

variable {answer : (β : Type) → Request P β → σ → β × σ} {action : Action P α} {s s' : σ}

theorem exists_met_eq_cons (answer : (β : Type) → Request P β → σ → β × σ) (action : Action P α)
    (s : σ) : ∃ rest, action.met answer s = s :: rest := by
  cases action with
  | done a => exact ⟨[], rfl⟩
  | ask request next => exact ⟨_, rfl⟩

theorem Meets.mem_met (h : action.Meets answer s s') : s' ∈ action.met answer s := by
  induction h with
  | here action s =>
      obtain ⟨rest, hmet⟩ := exists_met_eq_cons answer action s
      simp [hmet]
  | ask _ ih => exact List.mem_cons_of_mem _ ih

/-- If each request leads on, what is met is a chain, which goes on from what the action leaves. -/
theorem isChain_met {R : σ → σ → Prop} {inv : σ → Prop}
    (hkept : ∀ β (request : Request P β) s, inv s → inv (answer β request s).2 ∧
      R s (answer β request s).2) (hs : inv s) {later : List σ}
    (hlater : ((action.perform answer s).2 :: later).IsChain R) :
    (action.met answer s ++ later).IsChain R := by
  induction action generalizing s with
  | done a => exact hlater
  | ask request next ih =>
      obtain ⟨hinv, hR⟩ := hkept _ request s hs
      have hrest := ih _ hinv hlater
      obtain ⟨rest, hmet⟩ := exists_met_eq_cons answer (next (answer _ request s).1)
        (answer _ request s).2
      rw [hmet] at hrest
      rw [met, hmet]
      exact .cons_cons hR hrest

end Action

namespace Run

variable {library : Library P} {r r' r₀ : Run P} {id : NodeId} {moments : List (Run P)}

/-! ### What is seen of a step -/

/-- What is seen while a script is performed as part of a step. -/
def scriptMoments (script : Script P α) (r : Run P) : List (Run P) :=
  script.run.met (answer .refused) r

/-- What is seen of the program of the current node. -/
def programMoments (library : Library P) (r : Run P) : List (Run P) :=
  match r.currentNode with
  | .ok n => scriptMoments (n.program.program library) r
  | .error _ => []

/-- The run after a stage, and what is seen from there on unless the stage fails. -/
def thenSeen (stage : Edit (Run P) α) (r : Run P) (seen : α → Run P → List (Run P)) :
    List (Run P) :=
  match stage.apply r with
  | (.ok a, next) => next :: seen a next
  | (.error _, failed) => [failed]

/-- What is seen of a hook that a step has scheduled. -/
def hookMoments (library : Library P) (hook : Option (Job P)) (r : Run P) : List (Run P) :=
  match hook with
  | none => []
  | some hook => thenSeen openHook r fun _ hooked => scriptMoments (hook.program library) hooked

/-- What is seen of the step that is made in `r`. -/
def stepMoments (library : Library P) (r : Run P) : List (Run P) :=
  thenSeen openStep r fun _ opened =>
    programMoments library opened ++
      thenSeen (performCurrent library) opened fun _ returned =>
        thenSeen (closeStep r.current) returned fun closed handed =>
          hookMoments library closed.1.hook handed

/-- What is seen of a run that is driven from `r₀` to `r`, in order. -/
inductive Seen (library : Library P) (r₀ : Run P) : (moments : List (Run P)) → Run P → Prop
  | start : Seen library r₀ [r₀] r₀
  | step {moments : List (Run P)} {r : Run P} (h : Seen library r₀ moments r)
      (idle : r.phase = .idle) :
      Seen library r₀ (moments ++ stepMoments library r ++ [((step library).apply r).2])
        ((step library).apply r).2
  | aside {moments : List (Run P)} {r : Run P} {β : Type} (h : Seen library r₀ moments r)
      (request : Request P β) :
      Seen library r₀ (moments ++ [(answer .refused β request r).2]) (answer .refused β request r).2

theorem Seen.driven (h : Seen library r₀ moments r) : ∃ begun, Driven library r₀ begun r := by
  induction h with
  | start => exact ⟨[], .refl⟩
  | step _ idle ih =>
      obtain ⟨begun, hdriven⟩ := ih
      exact ⟨_, hdriven.step idle⟩
  | aside _ request ih =>
      obtain ⟨begun, hdriven⟩ := ih
      exact ⟨begun, hdriven.aside request⟩

/-- Driving a run on adds to what is seen of it. -/
theorem Seen.onward {begun : List (Run P)} (h : Seen library r₀ moments r)
    (hdriven : Driven library r begun r') : ∃ later, Seen library r₀ (moments ++ later) r' := by
  induction hdriven with
  | refl => exact ⟨[], by simpa using h⟩
  | step _ idle ih =>
      obtain ⟨later, hseen⟩ := ih
      have hnext := hseen.step idle
      rw [List.append_assoc, List.append_assoc] at hnext
      exact ⟨_, hnext⟩
  | aside _ request ih =>
      obtain ⟨later, hseen⟩ := ih
      have hnext := hseen.aside request
      rw [List.append_assoc] at hnext
      exact ⟨_, hnext⟩

theorem Seen.getLast?_eq (h : Seen library r₀ moments r) : moments.getLast? = some r := by
  cases h <;> simp

/-- Every moment of a run is seen. -/
theorem Moment.seen (h : Moment library r₀ r) :
    ∃ moments last, Seen library r₀ moments last ∧ r ∈ moments := by
  cases h with
  | between h =>
      obtain ⟨later, hseen⟩ := Seen.start.onward h
      exact ⟨_, r, hseen, List.mem_of_getLast? hseen.getLast?_eq⟩
  | @program begun r opened r' label n h idle opens node meets =>
      obtain ⟨later, hseen⟩ := Seen.start.onward h
      refine ⟨_, _, hseen.step idle, ?_⟩
      have hmem := meets.mem_met
      simp [stepMoments, thenSeen, programMoments, opens, node, scriptMoments, hmem]
  | @hook begun r opened returned handed hooked r' label n more hook h idle opens performs closes
      hooks begins meets =>
      obtain ⟨later, hseen⟩ := Seen.start.onward h
      refine ⟨_, _, hseen.step idle, ?_⟩
      have hmem := meets.mem_met
      simp [stepMoments, thenSeen, hookMoments, opens, performs, closes, hooks, begins,
        scriptMoments, hmem]

/-! ### Records stay -/

/-- A chain goes on with a stage that keeps the records, and with what is seen from there on. -/
theorem isChain_thenSeen {p : Run P → Prop} {post : α → Run P → Prop} {stage : Edit (Run P) α}
    {seen : α → Run P → List (Run P)} {later : List (Run P)}
    (hstage : Edit.Leads (Since r.timeline p) stage (fun a => Since r.timeline (post a))
      (Has r.timeline)) (hr : Since r.timeline p r)
    (hseen : ∀ a next, stage.apply r = (.ok a, next) → Since next.timeline (post a) next →
      (next :: (seen a next ++ later)).IsChain Onward)
    (hfail : ∀ e failed, stage.apply r = (.error e, failed) → failed.timeline.Recorded →
      (failed :: later).IsChain Onward) :
    (r :: (thenSeen stage r seen ++ later)).IsChain Onward := by
  have hend := hstage r hr
  unfold thenSeen
  rcases hres : stage.apply r with ⟨e | a, next⟩
  · rw [hres] at hend
    exact .cons_cons hend (hfail e next hres hend.recorded)
  · rw [hres] at hend
    exact .cons_cons hend.2 (hseen a next hres ⟨hend.1, hend.2.recorded.refl⟩)

/-- A chain goes on with what a script meets that is performed as part of a step. -/
theorem isChain_scriptMoments {p : Run P → Prop}
    (hkept : ∀ β (request : Request P β) r, p r →
      Since r.timeline p (answer .refused β request r).2) {script : Script P α}
    (hr : Since r.timeline p r) {later : List (Run P)}
    (hlater : (((performScript .refused script).apply r).2 :: later).IsChain Onward) :
    (r :: (scriptMoments script r ++ later)).IsChain Onward := by
  have hmet : (scriptMoments script r ++ later).IsChain Onward :=
    Action.isChain_met hkept hr.1 hlater
  obtain ⟨rest, hfirst⟩ := Action.exists_met_eq_cons (answer .refused) script.run r
  rw [scriptMoments, hfirst] at hmet ⊢
  exact .cons_cons hr.2 hmet

/-- The run after a stage is the next that is seen. -/
theorem thenSeen_eq (stage : Edit (Run P) α) (r : Run P) (seen : α → Run P → List (Run P)) :
    ∃ rest, thenSeen stage r seen = (stage.apply r).2 :: rest := by
  unfold thenSeen
  rcases stage.apply r with ⟨e | a, next⟩
  · exact ⟨[], rfl⟩
  · exact ⟨seen a next, rfl⟩

/-- A chain goes on with the program of the step that is open, and with the run that it leaves. -/
theorem isChain_programMoments
    (h : Since r.timeline (fun r => r.Open id ∧ r.phase = .running) r) {later : List (Run P)}
    (hlater : (r :: (((performCurrent library).apply r).2 :: later)).IsChain Onward) :
    (r :: (programMoments library r ++ ((performCurrent library).apply r).2 :: later)).IsChain
      Onward := by
  have hlast := (List.isChain_cons_cons.mp hlater).2
  have hrecorded := (List.isChain_cons_cons.mp hlater).1.recorded
  unfold programMoments
  cases hn : r.currentNode with
  | error e => exact hlater
  | ok n =>
      refine isChain_scriptMoments (fun _ request _ => open_answer request) h ?_
      have hperform : (performScript .refused (n.program.program library)).apply r
          = (performCurrent library).apply r := by
        rw [performCurrent, Edit.apply_bind, Edit.apply_get]
        simp [Edit.apply_bind, hn]
      rw [hperform]
      exact .cons_cons hrecorded.refl hlast

/-- From the run that a stage leaves to the one after all that follows. -/
theorem onward_bind {p : Run P → Prop} {post : α → Run P → Prop} {e : Edit (Run P) α}
    {f : α → Edit (Run P) β}
    (he : Edit.Leads (Since r.timeline p) e (fun a => Since r.timeline (post a)) (Has r.timeline))
    (hf : ∀ a next, Since next.timeline (post a) next → Onward next ((f a).apply next).2)
    (hr : Since r.timeline p r) : Onward (e.apply r).2 ((e >>= f).apply r).2 := by
  have hend := he r hr
  rw [Edit.apply_bind]
  rcases hres : e.apply r with ⟨err | a, next⟩
  · rw [hres] at hend
    exact hend.recorded.refl
  · rw [hres] at hend
    exact hf a next ⟨hend.1, hend.2.recorded.refl⟩

/-- A chain goes on with the hook of a step, and ends with the run after the step. -/
theorem isChain_hookMoments {more : Bool} (label : Label) (n : Node (Job P))
    (h : Since r.timeline (Passed more) r) :
    (r :: (hookMoments library n.hook r ++ [((conclude library label n more).apply r).2])).IsChain
      Onward := by
  cases hhook : n.hook with
  | none => exact .cons_cons ((conclude_keeps library label n).keeps h) (.singleton _)
  | some hook =>
      rw [conclude_some hhook, Edit.apply_bind]
      refine isChain_thenSeen openHook_keeps h (fun _ hooked hopens hpassed => ?_)
        fun e failed hfails hrecorded => ?_
      · rw [hopens]
        refine isChain_scriptMoments (fun _ request _ => passed_answer request) hpassed ?_
        refine .cons_cons (onward_bind (performScript_keeps ?_ _) (fun _ next hnext => ?_) hpassed)
          (.singleton _)
        · exact fun _ request _ => passed_answer request
        · have hend : Edit.Leads (Has next.timeline)
              (closeHook >>= fun _ => endStep label n.name more : Edit (Run P) Bool)
              (fun _ => Has next.timeline) (Has next.timeline) :=
            .bind _ closeHook_keeps fun _ => endStep_keeps label n.name more
          exact hend.keeps hnext.2
      · rw [hfails]
        exact .cons_cons hrecorded.refl (.singleton _)

/-- **In a step the records that are there stay, from each run that is seen to the next.** -/
theorem chain_step (h : Since r.timeline (Next id) r) (library : Library P) :
    (r :: (stepMoments library r ++ [((runCurrent library).apply r).2])).IsChain Onward := by
  have hcurrent := h.1.1
  generalize hlast : ((runCurrent library).apply r).2 = last
  have hrun := hlast
  rw [runCurrent_eq, Edit.apply_bind, Edit.apply_get] at hrun
  simp only [Edit.apply_bind] at hrun
  -- A stage that fails is the end of the step.
  have hfailed : ∀ failed : Run P, failed.timeline.Recorded → failed = last →
      [failed, last].IsChain Onward := by
    rintro failed hrecorded rfl
    exact .cons_cons hrecorded.refl (.singleton _)
  refine isChain_thenSeen openStep_keeps h (fun label opened hopens hopen => ?_)
    fun e failed hfails hrecorded => hfailed failed hrecorded (by rw [hfails] at hrun; exact hrun)
  rw [hopens] at hrun
  dsimp only at hrun
  let after : Run P → List (Run P) := fun returned =>
    thenSeen (closeStep r.current) returned fun closed handed =>
      hookMoments library closed.1.hook handed
  have hperformed : (opened :: (thenSeen (performCurrent library) opened (fun _ => after) ++
      [last])).IsChain Onward := by
    refine isChain_thenSeen (performCurrent_keeps library) hopen
      (fun _ returned hperforms hreturned => ?_)
      fun e failed hfails hrecorded => hfailed failed hrecorded (by rw [hfails] at hrun; exact hrun)
    rw [hperforms] at hrun
    dsimp only at hrun
    refine isChain_thenSeen (p := Open r.current) closeStep_keeps ?_
      (fun closed handed hcloses hpassed => ?_)
      fun e failed hfails hrecorded => hfailed failed hrecorded (by rw [hfails] at hrun; exact hrun)
    · exact ⟨hcurrent ▸ hreturned.1.1, hreturned.2⟩
    · rw [hcloses] at hrun
      rw [← hrun]
      exact isChain_hookMoments label closed.1 hpassed
  obtain ⟨rest, hrest⟩ := thenSeen_eq (performCurrent library) opened fun _ => after
  rw [hrest] at hperformed ⊢
  rw [List.append_assoc]
  exact isChain_programMoments hopen hperformed

variable {initial : Snapshot} {root : Job P} {config : RunConfig}

/-- **All that is seen of a run is a chain along which the records stay.** -/
theorem Seen.chain (h : Seen library (ofJob initial root config) moments r) :
    moments.IsChain Onward := by
  induction h with
  | start => exact .singleton _
  | @step moments r h hidle ih =>
      obtain ⟨begun, hdriven⟩ := h.driven
      have hstep := chain_step (hdriven.since.2 hidle) library
      have hend : (r :: (stepMoments library r ++ [((Run.step library).apply r).2])).IsChain
          Onward := by
        rw [← List.cons_append, List.isChain_append] at hstep ⊢
        refine ⟨hstep.1, .singleton _, fun x hx y hy => ?_⟩
        obtain rfl : _ = y := by simpa using hy
        exact (hstep.2.2 x hx _ rfl).of_timeline_eq (timeline_step hidle library)
      rw [List.append_assoc, List.isChain_append]
      refine ⟨ih, hend.tail, fun x hx y hy => ?_⟩
      obtain rfl : r = x := by simpa [h.getLast?_eq] using hx
      exact List.isChain_cons.mp hend |>.1 y hy
  | @aside moments r β h request ih =>
      obtain ⟨begun, hdriven⟩ := h.driven
      rw [List.isChain_append]
      refine ⟨ih, .singleton _, fun x hx y hy => ?_⟩
      obtain rfl : r = x := by simpa [h.getLast?_eq] using hx
      obtain rfl : _ = y := by simpa using hy
      exact hdriven.onward_aside request

/-- What is archived is the same for who looks at it later. -/
theorem Onward.node_eq (h : Onward r r') {n : Node (Job P)} (hn : r.timeline.node? id = some n)
    (hstatus : n.status = .archived) :
    ∃ n' data, r'.timeline.node? id = some n' ∧ n'.status = .archived ∧
      r.recordAt id = .ok (some data) ∧ r'.recordAt id = .ok (some data) ∧
      n'.label = n.label ∧ n'.name = n.name ∧ n'.parent = n.parent ∧
      r'.timeline.before id = r.timeline.before id := by
  have hid : r.timeline.IsArchived id := Timeline.isArchived_iff.mpr ⟨n, hn, hstatus⟩
  have hcore := h.core id hid
  have hparent := h.parent id hid
  rw [Timeline.core?, Timeline.core?, hn, Option.map_some] at hcore
  obtain ⟨n', hn', hsame⟩ := Option.map_eq_some_iff.mp hcore
  rw [Timeline.parent?, Timeline.parent?, hn, hn'] at hparent
  have hlabel : n'.unlinked.label = n.unlinked.label := by rw [hsame]
  have hname : n'.unlinked.name = n.unlinked.name := by rw [hsame]
  have hstate : n'.unlinked.state = n.unlinked.state := by rw [hsame]
  have hstatus' : n'.unlinked.status = .archived := by
    rw [hsame]
    exact hstatus
  have hcore' : r'.timeline.core? id = some n'.unlinked := by rw [Timeline.core?, hn']; rfl
  obtain ⟨data, hdata⟩ := h.recorded id n'.unlinked hcore' hstatus'
  have hdata' : n.state = .archived data := hstate.symm.trans hdata
  exact ⟨n', data, hn', hstatus', recordAt_of_node? hn hstatus hdata',
    recordAt_of_node? hn' hstatus' hdata, hlabel, hname, hparent, h.before id hid⟩

/-- **Recorded history does not change.**

Whatever is seen of a run, in the middle of steps and also of those that fail, and between them
however it is driven: of a node that is archived, the record, the label, the name, the parent and
the chronological predecessor are the same in all that is seen later.  Wherever the run is driven
to from there, that is seen later. -/
theorem records_are_final (h : Seen library (ofJob initial root config) moments r) :
    (moments.Pairwise fun earlier later =>
      ∀ id n, earlier.timeline.node? id = some n → n.status = .archived →
        ∃ n' data, later.timeline.node? id = some n' ∧ n'.status = .archived ∧
          earlier.recordAt id = .ok (some data) ∧ later.recordAt id = .ok (some data) ∧
          n'.label = n.label ∧ n'.name = n.name ∧ n'.parent = n.parent ∧
          later.timeline.before id = earlier.timeline.before id) ∧
    ∀ r', Reaches library r r' →
      ∃ later, Seen library (ofJob initial root config) (moments ++ later) r' := by
  refine ⟨?_, fun r' hreaches => ?_⟩
  · refine (List.isChain_iff_pairwise.mp h.chain).imp fun honward id n hn hstatus => ?_
    exact honward.node_eq hn hstatus
  · obtain ⟨begun, hdriven⟩ := hreaches.driven
    exact h.onward hdriven

/-- A run in which a step is repeated: the record of the root before and after the copy was put into
the timeline. -/
theorem records_are_final_repeating :
    ∃ moments r₁ r₂, Seen repeating (ofJob oneSymbol (.named 0) {}) moments r₂ ∧
      [r₁, r₂].Sublist moments ∧ r₁.timeline.size = 3 ∧ r₂.timeline.size = 4 ∧
      r₁.recordAt Timeline.root = .ok (some oneSymbol.toData) ∧
      r₂.recordAt Timeline.root = r₁.recordAt Timeline.root := by
  have hseen := (Seen.start : Seen repeating (ofJob oneSymbol (.named 0) {}) _ _).step rfl
  generalize hr₁ : ((step repeating).apply (ofJob oneSymbol (.named 0) {})).2 = r₁ at hseen
  have hidle : r₁.phase = .idle := by subst hr₁; decide +kernel
  have hsize₁ : r₁.timeline.size = 3 := by subst hr₁; decide +kernel
  have hrecord : r₁.recordAt Timeline.root = .ok (some oneSymbol.toData) := by
    subst hr₁; decide +kernel
  have harchived : (r₁.timeline.node? Timeline.root).map (·.status) = some .archived := by
    subst hr₁; decide +kernel
  have hsize₂ : ((step repeating).apply r₁).2.timeline.size = 4 := by subst hr₁; decide +kernel
  have hlast := hseen.step hidle
  generalize ((step repeating).apply r₁).2 = r₂ at hlast hsize₂
  have hsublist : ([r₁] ++ [r₂]).Sublist (([ofJob oneSymbol (.named 0) {}] ++
      stepMoments repeating (ofJob oneSymbol (.named 0) {}) ++ [r₁]) ++
      stepMoments repeating r₁ ++ [r₂]) :=
    ((List.sublist_append_right _ _).trans (List.sublist_append_left _ _)).append (.refl _)
  obtain ⟨n, hn, hstatus⟩ := Option.map_eq_some_iff.mp harchived
  have hpairs := (records_are_final hlast).1.sublist hsublist
  obtain ⟨n', data, -, -, hfirst, hsecond, -⟩ :=
    (List.pairwise_cons.mp hpairs).1 r₂ (by simp) Timeline.root n hn hstatus
  exact ⟨_, r₁, r₂, hlast, hsublist, hsize₁, hsize₂, hrecord, hsecond.trans hfirst.symm⟩

end Run

end Chronicle
