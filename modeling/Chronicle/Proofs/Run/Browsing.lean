import Chronicle.Proofs.Run.Moments
import Chronicle.Proofs.Timeline.Breadcrumbs
import Chronicle.Proofs.Timeline.Browsing
/-!
Browsing a run.

A cursor may be put on the timeline of a run at any moment.  What it does there is told by the shape
of the timeline and its labels, and both are those of a run that is driven (`Moment.marked`).  Only
jumps ask for more: before the run is finished, not all nodes have a label to be found by.

In a finished run they all have, and the list of steps and the breadcrumbs, which are found by going
along the links, say the same as the labels.
-/

namespace Chronicle

namespace Run

variable {P : Type} {library : Library P} {initial : Snapshot} {root : Job P} {config : RunConfig} {r : Run P}

/-- In a finished run every step has begun, in chronological order. -/
theorem Driven.order_of_finished {begun : List (Run P)}
    (h : Driven library (ofJob initial root config) begun r) (hfinished : r.phase = .finished) :
    begun.map (·.current) = r.timeline.chronological ∧
      ∀ id n, r.timeline.node? id = some n → n.status = .archived := by
  cases h.standing with
  | idle visits jobs state runs told between awaited => simp [between.phase] at hfinished
  | aborted phase => simp [phase] at hfinished
  | finished visits data last runs told closed isLast ends =>
      obtain ⟨-, hchronological, -, harchived, -⟩ := closed.order_eq
      refine ⟨?_, harchived⟩
      rw [hchronological, ← runs, List.map_map]
      rfl

/-- A finished run is met only after its last step. -/
theorem Moment.exists_driven_of_finished (h : Moment library (ofJob initial root config) r)
    (hfinished : r.phase = .finished) :
    ∃ begun, Driven library (ofJob initial root config) begun r := by
  rcases h.marked.2 with hdriven | hrunning | hhook
  · exact hdriven
  · simp [hrunning] at hfinished
  · simp [hhook] at hfinished

/-- **Cursors walk over a run as they should**, at every moment of every run.

Wherever some moves have led a cursor from the first step, it behaves as it should.  Moved forward
again and again from the first step, it comes to every node but the root, in chronological order,
which lists every node once.  In a finished run, which has made its steps in that order, a jump to
the label of a node below the root leads there, and any other jump leads nowhere. -/
theorem cursors_behave (h : Moment library (ofJob initial root config) r) :
    (∀ c, Cursor.Browsed r.timeline c → Cursor.Behaves r.timeline c) ∧
    (r.timeline.chronological.Nodup ∧
      ∀ id, id ∈ r.timeline.chronological ↔ ∃ n, r.timeline.node? id = some n) ∧
    (∃ trail last, Cursor.Exhausts r.timeline .forward (.ofTimeline r.timeline) trail last ∧
      r.timeline.chronological = if r.timeline.children Timeline.root = [] then [Timeline.root]
        else Timeline.root :: (Cursor.ofTimeline r.timeline :: trail).map (·.active)) ∧
    (r.phase = .finished →
      (∃ begun, Driven library (ofJob initial root config) begun r ∧
        begun.map (·.current) = r.timeline.chronological) ∧
      ∀ c : Cursor,
        (∀ id n, r.timeline.node? id = some n → id ≠ Timeline.root →
          (c.jump r.timeline n.label.text).2 = ⟨id⟩) ∧
        ∀ text, (∀ id n, r.timeline.node? id = some n → id ≠ Timeline.root →
          n.label.text ≠ text) → c.jump r.timeline text = (false, c)) := by
  obtain ⟨begun, rest, hlabelled⟩ := h.marked.1
  obtain ⟨f, hshape, -⟩ := hlabelled.layout
  have hchronological := hshape.chronological_eq
  refine ⟨fun c hc => hc.behaves hlabelled, ⟨hchronological ▸ hshape.nodup, fun id => ?_⟩, ?_,
    fun hfinished => ?_⟩
  · rw [hchronological]
    exact hshape.mem_iff
  · rw [hchronological]
    exact Cursor.exists_exhausts_from_first hshape
  · obtain ⟨runs, hdriven⟩ := h.exists_driven_of_finished hfinished
    obtain ⟨horder, harchived⟩ := hdriven.order_of_finished hfinished
    refine ⟨⟨runs, hdriven, horder⟩, fun c => ⟨fun id n hn hroot => ?_, fun text hother => ?_⟩⟩
    · have hid : id ∈ begun := hlabelled.mem_begun hn (.inr (by simp [harchived id n hn]))
      rw [Cursor.jump, hlabelled.findByLabel_eq hn hid hroot]
      exact c.moveTo_snd id
    · rw [Cursor.jump, hlabelled.findByLabel_eq_none hother]
      rfl

/-- The run in which a copy is put between two siblings: from the first step the cursor goes on to
the copy, and the label of the last step leads to that. -/
theorem cursors_behave_repeating :
    ∃ r, Reaches repeating (ofJob oneSymbol (.named 0) {}) r ∧ r.phase = .finished ∧
      Cursor.Behaves r.timeline (.ofTimeline r.timeline) ∧
      (Cursor.ofTimeline r.timeline).goForward r.timeline = (true, ⟨⟨3⟩⟩) ∧
      ((Cursor.ofTimeline r.timeline).jump r.timeline "3").2 = ⟨⟨2⟩⟩ := by
  have hreaches := Reaches.command
    (.refl : Reaches repeating (ofJob oneSymbol (.named 0) {}) _) (Script.demand (.execute 1))
  generalize hr : ((command repeating (Script.demand (.execute 1))).apply
    (ofJob oneSymbol (.named 0) {})).2 = r at hreaches
  have hfinished : r.phase = .finished := by subst hr; decide +kernel
  have hforward : (Cursor.ofTimeline r.timeline).goForward r.timeline = (true, ⟨⟨3⟩⟩) := by
    subst hr
    decide +kernel
  have hlabel : (r.timeline.node? ⟨2⟩).map (·.label.text) = some "3" := by subst hr; decide +kernel
  obtain ⟨n, hn, htext⟩ := Option.map_eq_some_iff.mp hlabel
  obtain ⟨hbehaves, -, -, hend⟩ := cursors_behave hreaches.moment
  obtain ⟨-, hjumps⟩ := hend hfinished
  have hjump := (hjumps (.ofTimeline r.timeline)).1 ⟨2⟩ n hn (by decide)
  rw [htext] at hjump
  exact ⟨r, hreaches, hfinished, hbehaves _ .opening, hforward, hjump⟩

end Run

end Chronicle
