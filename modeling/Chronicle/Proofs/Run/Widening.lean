import Chronicle.Proofs.Run.Tallies
import Chronicle.Proofs.Timeline.Widening
/-!
Where the steps of a run put new nodes.

While its program is at work a step puts children below its own node, and when it is closed a copy
right behind it, if there was a request for that.  The stages are taken through `Timeline.Widened` one
by one: programs (`performCurrent_widens`), the end of a step (`closeStep_widens`), and all that changes
no more than nodes in place (`stable_widened`).  Together they say where the new nodes of a step are
(`Driven.widened_step`), and those of a step that is still being made (`Within.widened`).

No later step touches the row behind a node whose step was begun (`Moment.settled`).
-/

namespace Chronicle

namespace Run

variable {P α β : Type} {library : Library P} {r r' r₀ : Run P} {t : Timeline (Job P)} {c : NodeId}
  {copy : Option NodeId} {initial : Snapshot} {root : Job P} {config : RunConfig}
  {begun begun₀ : List (Run P)} {done : List NodeId} {job : Job P} {rest : List (Job P)}
  {state : SnapshotState}

/-! ### The stages of a step -/

theorem stable_widened (t : Timeline (Job P)) (c : NodeId) (copy : Option NodeId) :
    Stable fun r : Run P => t.Widened c copy r.timeline where
  congr h htimeline _ := htimeline ▸ h
  modifyNode id _ h hplace hprogram := h.modify id hplace (.inr hprogram)

/-- The program of `c` is at work, and has put only children into the timeline `t`. -/
def Widening (c : NodeId) (t : Timeline (Job P)) (r : Run P) : Prop :=
  (r.Begun c ∧ r.phase = .running) ∧ t.Widened c none r.timeline

theorem Widening.touches (h : Widening c t r) (htouches : r.Touches r') : Widening c t r' := by
  obtain ⟨⟨hbegun, hphase⟩, hwidened⟩ := h
  have hnext := hbegun.touches htouches
  refine ⟨⟨hnext.1, hnext.2.trans hphase⟩, ?_⟩
  cases htouches with
  | aside => exact hwidened
  | state place => exact (stable_widened t c none).putState hwidened place _
  | node running g place => exact hwidened.modify _ place (.inl rfl)
  | child running adopted => exact hwidened.adopt (hbegun.1 ▸ adopted)

theorem openStep_widens :
    Edit.Leads (fun r => r.Next c ∧ t.Widened c none r.timeline) (openStep : Edit (Run P) Label)
      (fun _ => Widening c t) (fun r => t.Widened c none r.timeline) := by
  rintro r ⟨hnext, hwidened⟩
  have hopened := openStep_leads r hnext
  have hkept := (stable_widened t c none).openStep r hwidened
  rcases hres : (openStep : Edit (Run P) Label).apply r with ⟨e | label, next⟩
  · rw [hres] at hkept
    exact hkept
  · rw [hres] at hopened hkept
    exact ⟨hopened, hkept⟩

theorem performCurrent_widens (library : Library P) :
    Edit.Leads (Widening c t) (performCurrent library) (fun _ => Widening c t)
      (fun r => t.Widened c none r.timeline) := by
  unfold performCurrent
  refine .get fun r h => .bind (fun _ r' => r' = r) (.ofExcept ?_ ?_) fun n => ?_
  · exact fun _ _ _ heq => heq
  · rintro _ rfl
    exact h.2
  · refine (performScript_leads (Widening c t) (fun _ request _ h =>
      h.touches (answer_touches (by simp [h.1.2]) request)) _ fun _ h => h.2).mono ?_
      fun _ _ h => h
    rintro _ rfl
    exact h

/-- The step of `c` has its copy in the timeline if it asked for one. -/
def Copied (asked : Bool) (c : NodeId) (t : Timeline (Job P)) (r : Run P) : Prop :=
  ∃ copy : Option NodeId, copy.isSome = asked ∧ t.Widened c copy r.timeline

/-- The step of `c` has no copy in the timeline unless it asked for one. -/
def CopiedAtMost (asked : Bool) (c : NodeId) (t : Timeline (Job P)) (r : Run P) : Prop :=
  ∃ copy : Option NodeId, (copy.isSome = true → asked = true) ∧ t.Widened c copy r.timeline

theorem Copied.atMost {asked : Bool} (h : Copied asked c t r) : CopiedAtMost asked c t r := by
  obtain ⟨copy, hcopy, hwidened⟩ := h
  exact ⟨copy, fun hc => hcopy ▸ hc, hwidened⟩

theorem copiedAtMost_of_none (asked : Bool) (h : t.Widened c none r.timeline) :
    CopiedAtMost asked c t r :=
  ⟨none, fun hc => absurd hc Bool.false_ne_true, h⟩

/-- What changes no more than nodes in place leaves the copy where it is. -/
theorem Copied.leads {asked : Bool} {e : Edit (Run P) α}
    (he : ∀ copy, Edit.Leads (fun r => t.Widened c copy r.timeline) e
      (fun _ r => t.Widened c copy r.timeline) (fun r => t.Widened c copy r.timeline)) :
    Edit.Leads (Copied asked c t) e (fun _ => Copied asked c t) (CopiedAtMost asked c t) := by
  rintro r ⟨copy, hcopy, hwidened⟩
  have hend := he copy r hwidened
  rcases hres : e.apply r with ⟨err | a, next⟩
  · rw [hres] at hend
    exact Copied.atMost ⟨copy, hcopy, hend⟩
  · rw [hres] at hend
    exact ⟨copy, hcopy, hend⟩

/-- Closing a step puts a copy behind it exactly if the step asked for one. -/
theorem closeStep_widens (asked : Bool) :
    Edit.Leads
      (fun r => t.Widened c none r.timeline ∧
        ∀ n, r.timeline.node? c = some n → n.repeats = asked)
      (closeStep c : Edit (Run P) (Node (Job P) × Bool)) (fun _ => Copied asked c t)
      (CopiedAtMost asked c t) := by
  have hstable := stable_widened t c
  unfold closeStep
  refine .bind (fun _ r => t.Widened c none r.timeline ∧
    ∀ n, r.timeline.node? c = some n → n.repeats = asked) (.modify _ fun _ h => h) fun _ => ?_
  refine .get fun r h => .bind (fun n r => t.Widened c none r.timeline ∧ n.repeats = asked)
    (.ofExcept ?_ ?_) fun n => ?_
  · rintro n hn _ rfl
    exact ⟨h.1, h.2 n (Timeline.node_eq_ok.mp hn)⟩
  · rintro _ rfl
    exact copiedAtMost_of_none asked h.1
  rintro s ⟨hwidened, hrepeats⟩
  have hrecord : ∀ live, Edit.Leads (Copied asked c t)
      (recordAndHandOver c live >>= fun more => pure (n, more) : Edit (Run P) _)
      (fun _ => Copied asked c t) (CopiedAtMost asked c t) := fun live =>
    .bind _ (Copied.leads fun copy => ((hstable copy).recordAndHandOver c live).leads fun _ h => h)
      fun more => .pure _ fun _ h => h
  refine Edit.Leads.bind (fun _ r => t.Widened c none r.timeline)
    (((hstable none).takeState c).leads fun _ h => copiedAtMost_of_none asked h)
    (fun live => ?_) s hwidened
  split
  · next hasked =>
      refine .bind _ (.atomic (fun r _ next h heq => ?_) fun _ h => copiedAtMost_of_none asked h)
        fun _ => hrecord live
      obtain ⟨⟨copy, timeline⟩, hduplicate, heq⟩ := exists_of_bind_eq_ok heq
      obtain ⟨-, rfl⟩ := Prod.mk.inj (Except.ok.inj heq)
      exact ⟨some copy, hasked.symm.trans hrepeats, h.duplicate hduplicate⟩
  · next hasked =>
      refine fun r h => hrecord live r ⟨none, ?_, h⟩
      rw [← hrepeats]
      exact (Bool.eq_false_iff.mpr hasked).symm

/-! ### A whole step -/

/-- What a step is begun with. -/
theorem Driven.widened_start (h : Driven library (ofJob initial root config) begun r)
    (idle : r.phase = .idle) :
    r.Next r.current ∧ r.timeline.Widened r.current none r.timeline := by
  obtain ⟨done, job, rest, state, hbetween⟩ := h.exists_between idle
  obtain ⟨id, hnext⟩ := h.tracked.2 idle
  obtain rfl := hnext.1
  refine ⟨hnext, ?_⟩
  obtain ⟨f, ids, hshape, horder, hfront⟩ := hbetween.stands.layout
  cases hfront with
  | next final current queue =>
      exact .refl hshape (by simp [horder]) (current.under_eq_nil hshape)

/-- When the program of the step is done, its node says whether a repetition was asked for. -/
theorem Stands.performCurrent_widens {asked : Bool} {label : Label}
    (h : r.Stands done (job :: rest) state)
    (hasked : decide (0 < (stepTally library r).repeats) = asked) :
    Edit.Leads
      (fun s => Widening r.current r.timeline s ∧ openStep.apply r = (.ok label, s))
      (performCurrent library)
      (fun _ s => r.timeline.Widened r.current none s.timeline ∧
        ∀ n, s.timeline.node? r.current = some n → n.repeats = asked)
      (CopiedAtMost asked r.current r.timeline) := by
  rintro opened ⟨hwidening, hopen⟩
  obtain ⟨s, hopens⟩ := h.exists_opens hopen
  obtain ⟨hperform, hwork, hkeeps⟩ := h.returned_eq hopens library
  obtain rfl : r.opened = opened := by rw [Run.opened, hopen]
  have hend := Run.performCurrent_widens library r.opened hwidening
  rw [hperform] at hend ⊢
  cases hres : ((performScript .refused (job.program library)).apply r.opened).1 with
  | error e =>
      rw [hres] at hend
      exact copiedAtMost_of_none asked hend
  | ok _ =>
      rw [hres] at hend
      refine ⟨hend.2, fun n hn => ?_⟩
      obtain ⟨m, hm, hnode⟩ := hwork.currentNode_eq
      rw [hkeeps.current, hn] at hm
      obtain rfl := Option.some.inj hm
      have hrepeats : n.repeats = (r.workOf library job s).repeats := congrArg Node.repeats hnode
      rw [hrepeats, (h.agrees hopens library).repeats, hasked]

/-- **Where the new nodes of a step are, however it ends.** -/
theorem Driven.widened_step (h : Driven library (ofJob initial root config) begun r)
    (idle : r.phase = .idle) :
    CopiedAtMost (decide (0 < (stepTally library r).repeats)) r.current r.timeline
        ((Run.step library).apply r).2 ∧
      ∀ more r', (Run.step library).apply r = (.ok more, r') →
        Copied (decide (0 < (stepTally library r).repeats)) r.current r.timeline r' := by
  generalize hasked : decide (0 < (stepTally library r).repeats) = asked
  obtain ⟨done, job, rest, state, hbetween⟩ := h.exists_between idle
  have hopen : Edit.Leads (fun r' => r' = r) openStep
      (fun label s => Widening r.current r.timeline s ∧ openStep.apply r = (.ok label, s))
      (CopiedAtMost asked r.current r.timeline) := by
    intro r' hr
    obtain rfl : r = r' := hr.symm
    have hend := openStep_widens r (h.widened_start idle)
    rcases hres : openStep.apply r with ⟨e | label, opened⟩
    · rw [hres] at hend
      exact copiedAtMost_of_none asked hend
    · rw [hres] at hend
      exact ⟨hend, rfl⟩
  have hrun : Edit.Leads (fun r' => r' = r) (runCurrent library)
      (fun _ => Copied asked r.current r.timeline)
      (CopiedAtMost asked r.current r.timeline) := by
    rw [runCurrent_eq]
    refine .get fun r' hr => ?_
    obtain rfl : r = r' := hr.symm
    exact .bind _ hopen fun label =>
      .bind _ (hbetween.stands.performCurrent_widens hasked) fun _ =>
      .bind _ (closeStep_widens asked) fun closed =>
      Copied.leads fun copy => (stable_widened _ _ copy).conclude library label closed.1 closed.2
  constructor
  · have hend := (hrun.mono (fun _ h => h) fun _ _ h => h.atMost).keeps rfl
    unfold CopiedAtMost at hend ⊢
    rwa [timeline_step idle]
  · exact fun more r' made => hrun.of_apply rfl (runCurrent_eq_ok idle made)

/-- So are those of a step that is still being made. -/
theorem Within.widened {phase : Phase} (h₀ : Driven library (ofJob initial root config) begun₀ r₀)
    (h : Within library r₀ phase r) :
    ∃ begun b copy, Driven library r₀ begun b ∧ b.phase = .idle ∧
      b.timeline.Widened b.current copy r.timeline := by
  cases h with
  | @program begun b opened r' label n h idle opens node meets =>
      have hopened := openStep_widens.of_apply ((h₀.trans h).widened_start idle) opens
      have hmet := meets.holds (Widening b.current b.timeline)
        (fun _ request _ h => h.touches (answer_touches (by simp [h.1.2]) request)) hopened
      exact ⟨begun, b, none, h, idle, hmet.2⟩
  | @hook begun b opened returned handed hooked r' label n more hook h idle opens performs closes
      hooks begins meets =>
      have hopened := openStep_widens.of_apply ((h₀.trans h).widened_start idle) opens
      have hreturned := (performCurrent_widens library).of_apply hopened performs
      obtain ⟨asked, hasked⟩ : ∃ asked, ∀ n, returned.timeline.node? b.current = some n →
          n.repeats = asked := by
        refine ⟨((returned.timeline.node? b.current).map (·.repeats)).getD false, fun n hn => ?_⟩
        rw [hn]
        rfl
      obtain ⟨copy, -, hwidened⟩ :=
        (closeStep_widens asked).of_apply ⟨hreturned.2, hasked⟩ closes
      have hstable := stable_widened b.timeline b.current copy
      have hhooked := hstable.openHook.of_apply hwidened begins
      have hmet := meets.holds
        (fun r => b.timeline.Widened b.current copy r.timeline ∧ r.phase = .hook)
        (fun _ request _ h => hstable.writes (answer_writes (by simp [h.2]) request) h) hhooked
      exact ⟨begun, b, copy, h, idle, hmet.1⟩

/-! ### What stays -/

/-- The nodes whose steps were made are there, and so is the current one. -/
theorem Stands.lt_size (h : r.Stands done (job :: rest) state) :
    ∀ q ∈ done ++ [r.current], q.index < r.timeline.size := by
  intro q hq
  obtain ⟨f, ids, hshape, horder, hfront⟩ := h.layout
  cases hfront with
  | next final current queue =>
      rw [← hshape.complete, horder]
      exact (List.prefix_append_right_inj done).mpr (List.prefix_append [r.current] _) |>.subset hq

/-- The current step was not made yet. -/
theorem Stands.current_notMem (h : r.Stands done (job :: rest) state) : r.current ∉ done := by
  obtain ⟨f, ids, hshape, horder, hfront⟩ := h.layout
  cases hfront with
  | next final current queue =>
      have hnodup := hshape.nodup
      rw [horder, List.nodup_append] at hnodup
      exact fun hc => hnodup.2.2 r.current hc r.current List.mem_cons_self rfl

/-- The steps that were begun are not those that are begun next. -/
theorem Driven.ne_current (h : Driven library (ofJob initial root config) begun r)
    (idle : r.phase = .idle) :
    ∀ q ∈ begun.map (·.current), q.index < r.timeline.size ∧ q ≠ r.current := by
  cases h.standing with
  | finished visits data last runs told closed isLast ends => simp [closed.phase] at idle
  | aborted phase => simp [phase] at idle
  | idle visits jobs state runs told between awaited =>
      intro q hq
      have hdone : q ∈ visits.map (·.id) := by
        rw [← runs, List.map_map] at hq
        exact hq
      cases jobs with
      | nil => exact absurd rfl between.waiting
      | cons job rest =>
          have hstands := between.stands
          refine ⟨hstands.lt_size q (List.mem_append_left _ hdone), ?_⟩
          rintro rfl
          exact hstands.current_notMem hdone

theorem Driven.settled (h₀ : Driven library (ofJob initial root config) begun₀ r₀)
    (h : Driven library r₀ begun r) :
    r₀.timeline.Settled (begun₀.map (·.current)) r.timeline := by
  induction h with
  | refl => exact .refl _ _
  | @step begun r h idle ih =>
      have hdriven := h₀.trans h
      obtain ⟨copy, -, hwidened⟩ := (hdriven.widened_step idle).1
      refine ih.trans (hwidened.settled fun q hq => hdriven.ne_current idle q ?_)
      rw [List.map_append]
      exact List.mem_append_left _ hq
  | aside h request ih =>
      obtain ⟨scratch, notes, heq⟩ := (h₀.trans h).standing.aside_eq request
      rw [heq]
      exact ih

/-- **What stands behind a node whose step was begun stands there for ever.** -/
theorem Moment.settled (h₀ : Driven library (ofJob initial root config) begun₀ r₀)
    (h : Moment library r₀ r) : r₀.timeline.Settled (begun₀.map (·.current)) r.timeline := by
  rcases moment_iff.mp h with ⟨begun, h⟩ | ⟨phase, h⟩
  · exact h₀.settled h
  · obtain ⟨begun, b, copy, hb, idle, hwidened⟩ := h.widened h₀
    refine (h₀.settled hb).trans (hwidened.settled fun q hq => (h₀.trans hb).ne_current idle q ?_)
    rw [List.map_append]
    exact List.mem_append_left _ hq

end Run

end Chronicle
