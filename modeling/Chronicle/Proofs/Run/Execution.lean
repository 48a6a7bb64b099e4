import Chronicle.Proofs.Run.Visits
/-!
What a run that is driven from outside comes to.

Two questions are settled here for every program and every way of driving it: which steps are made
and in which order, and which state each of them works on.  Both are read off the visits that tell
the run.
-/

namespace Chronicle

namespace Timeline

variable {P : Type} {t : Timeline P}

/-- The first `count` nodes in chronological order are archived, and all others are scheduled. -/
def ArchivedUpTo (t : Timeline P) (count : Nat) : Prop :=
  ∀ id n, t.node? id = some n →
    n.status = if id ∈ t.chronological.take count then .archived else .scheduled

/-- The chronological order is the pre-order of the tree that the links make of all nodes. -/
def PreOrdered (t : Timeline P) : Prop := ∃ f, t.Shape f ∧ t.chronological = f.order

theorem Past.status_eq {id : NodeId} {n : Node P} (h : t.Past id) (hn : t.node? id = some n) :
    n.status = .archived := by
  obtain ⟨m, data, hm, hstatus, -⟩ := h
  rw [core?, hn, Option.map_some, Option.some.injEq] at hm
  rw [← hstatus, ← hm]
  rfl

theorem Awaits.status_eq {id : NodeId} {n : Node P} {job : P} {state : SnapshotState}
    (h : t.Awaits id job state) (hn : t.node? id = some n) : n.status = .scheduled := by
  have hm := h.1
  rw [core?, hn, Option.map_some, Option.some.injEq] at hm
  exact congrArg Node.status hm

theorem Queue.awaits {ids : List NodeId} {jobs : List P} (h : t.Queue ids jobs) {id : NodeId}
    (hid : id ∈ ids) : ∃ job, t.Awaits id job .pending := by
  induction h with
  | nil => simp at hid
  | cons hhead _ ih =>
      rcases List.mem_cons.mp hid with rfl | hid
      · exact ⟨_, hhead⟩
      · exact ih hid

/-- The node holds the record of its step. -/
def HasRecord (t : Timeline P) (id : NodeId) (data : SnapshotData) : Prop :=
  ∃ n, t.core? id = some n ∧ n.status = .archived ∧ n.state = .archived data

theorem HasRecord.frame {t' : Timeline P} {id : NodeId} {data : SnapshotData}
    (h : t.HasRecord id data) (hcore : t'.core? id = t.core? id) : t'.HasRecord id data := by
  obtain ⟨n, hn, hrest⟩ := h
  exact ⟨n, hcore.trans hn, hrest⟩

end Timeline

namespace Run

variable {P : Type} {library : Library P} {r : Run P} {initial : Snapshot} {root : Job P}
  {config : RunConfig} {done : List NodeId} {jobs : List (Job P)} {state : SnapshotState}

/-- A snapshot with one nonterminal and nothing else. -/
def oneSymbol : Snapshot := .ofGrammar ⟨.ofList [("S", .none)], .empty, .empty, "S"⟩

/-- Three programs: the first schedules the second, which has the third work as its hook. -/
def scheduling : Library Nat
  | 0 => Script.schedule 1
  | 1 => Script.demand (.scheduleHook (.named 2))
  | _ => Script.ask (.note "hook")

/-! ### The order of the steps -/

/-- Between two steps the archived nodes are the beginning of the order, and the current one is
next. -/
theorem Between.order_eq (h : r.Between done jobs state) :
    r.timeline.PreOrdered ∧ r.timeline.chronological.take r.steps = done ∧
      r.timeline.ArchivedUpTo r.steps ∧ r.timeline.chronological[r.steps]? = some r.current := by
  obtain ⟨⟨f, ids, hshape, horder, hfront⟩, hpast, -⟩ := h.stands
  have hchron := hshape.chronological_eq
  have htake : r.timeline.chronological.take r.steps = done := by
    rw [hchron, horder, h.steps, List.take_left']
    rfl
  refine ⟨⟨f, hshape, hchron⟩, htake, ?_, ?_⟩
  · intro id n hn
    rw [htake]
    split
    · next hid => exact (hpast id hid).status_eq hn
    · next hid =>
        have hmem : id ∈ done ++ ids := horder ▸ hshape.mem_iff.mpr ⟨n, hn⟩
        have hids : id ∈ ids := (List.mem_append.mp hmem).resolve_left hid
        cases hfront with
        | last => simp at hids
        | next _ current queue =>
            rcases List.mem_cons.mp hids with rfl | hids
            · exact current.status_eq hn
            · obtain ⟨job, hawaits⟩ := Timeline.Queue.awaits queue hids
              exact hawaits.status_eq hn
  · cases hfront with
    | last => exact absurd rfl h.waiting
    | next => simp [hchron, horder, h.steps]

/-- In a finished run all nodes are archived, and the listener has heard of each of them. -/
theorem Closed.order_eq (h : r.Closed done state) :
    r.timeline.PreOrdered ∧ r.timeline.chronological = done ∧ r.steps = r.timeline.size ∧
      (∀ id n, r.timeline.node? id = some n → n.status = .archived) ∧
      r.events = r.timeline.chronological.map r.timeline.eventOf ++ [.finished] := by
  obtain ⟨⟨f, ids, hshape, horder, hfront⟩, hpast, -⟩ := h.stands
  cases hfront with
  | last =>
      rw [List.append_nil] at horder
      have hchron : r.timeline.chronological = done := hshape.chronological_eq.trans horder
      refine ⟨⟨f, hshape, hshape.chronological_eq⟩, hchron, ?_, ?_, ?_⟩
      · rw [h.steps, ← horder, hshape.length_order]
      · intro id n hn
        exact (hpast id (horder ▸ hshape.mem_iff.mpr ⟨n, hn⟩)).status_eq hn
      · rw [hchron, h.events]

/-- **Steps are made in chronological order, one for each node.**

However a run is driven from outside: between two steps, the archived nodes are those that come
first in the chronological order, and the current node is the next one; in a finished run every
node was the current one once, in the pre-order of the final tree, and the listener heard of each
step and then of the end. -/
theorem steps_in_order (h : (ofJob initial root config).Reaches library r) :
    (r.phase = .idle →
      r.timeline.PreOrdered ∧ r.timeline.ArchivedUpTo r.steps ∧
      r.timeline.chronological[r.steps]? = some r.current ∧
      ∃ begun, Driven library (ofJob initial root config) begun r ∧
        begun.map (·.current) = r.timeline.chronological.take r.steps) ∧
    (r.phase = .finished →
      r.timeline.PreOrdered ∧ r.steps = r.timeline.size ∧
      (∀ id n, r.timeline.node? id = some n → n.status = .archived) ∧
      r.events = r.timeline.chronological.map r.timeline.eventOf ++ [.finished] ∧
      ∃ begun, Driven library (ofJob initial root config) begun r ∧
        begun.map (·.current) = r.timeline.chronological) := by
  obtain ⟨begun, hdriven⟩ := h.driven
  cases hdriven.standing with
  | aborted phase =>
      exact ⟨fun hidle => by simp [phase] at hidle, fun hfin => by simp [phase] at hfin⟩
  | idle visits jobs state runs told between awaited =>
      refine ⟨fun _ => ?_, fun hfin => by simp [between.phase] at hfin⟩
      obtain ⟨hpre, htake, harchived, hcurrent⟩ := between.order_eq
      refine ⟨hpre, harchived, hcurrent, begun, hdriven, ?_⟩
      rw [htake, ← runs, List.map_map]
      rfl
  | finished visits data last runs told closed isLast ends =>
      refine ⟨fun hidle => by simp [closed.phase] at hidle, fun _ => ?_⟩
      obtain ⟨hpre, hchron, hsteps, harchived, hevents⟩ := closed.order_eq
      refine ⟨hpre, hsteps, harchived, hevents, begun, hdriven, ?_⟩
      rw [hchron, ← runs, List.map_map]
      rfl

/-- The run of two programs, driven to its end by one request. -/
theorem steps_in_order_scheduling :
    ∃ r, Reaches scheduling (ofJob oneSymbol (.named 0) {}) r ∧ r.phase = .finished ∧
      r.timeline.size = 2 ∧ r.steps = r.timeline.size := by
  have hreaches := Reaches.command
    (.refl : Reaches scheduling (ofJob oneSymbol (.named 0) {}) _) (Script.demand (.execute 1))
  have hfinished : ((command scheduling (Script.demand (.execute 1))).apply
      (ofJob oneSymbol (.named 0) {})).2.phase = .finished := by decide
  exact ⟨_, hreaches, hfinished, by decide, ((steps_in_order hreaches).2 hfinished).2.1⟩

/-! ### The states of the steps -/

/-- The record of an archived node is what it holds. -/
theorem recordAt_of_node? {id : NodeId} {n : Node (Job P)} {data : SnapshotData}
    (hn : r.timeline.node? id = some n) (hstatus : n.status = .archived)
    (hstate : n.state = .archived data) : r.recordAt id = .ok (some data) := by
  simp only [recordAt, Timeline.node_eq_ok.mpr hn, bind, Except.bind, pure, Except.pure, hstatus,
    if_true, hstate, SnapshotState.archived?]

/-- The record that the run shows is the one that the node has. -/
theorem recordAt_eq_ok {id : NodeId} {data : SnapshotData} :
    r.recordAt id = .ok (some data) ↔ r.timeline.HasRecord id data := by
  constructor
  · intro h
    cases hnode : r.timeline.node id with
    | error e => simp [recordAt, hnode, bind, Except.bind] at h
    | ok n =>
        have hcore : r.timeline.core? id = some n.unlinked := by
          rw [Timeline.core?, Timeline.node_eq_ok.mp hnode, Option.map_some]
        simp only [recordAt, hnode, bind, Except.bind, pure, Except.pure, Except.ok.injEq] at h
        by_cases hstatus : n.status = .archived
        · rw [if_pos hstatus] at h
          refine ⟨_, hcore, hstatus, ?_⟩
          show n.state = .archived data
          cases hstate : n.state <;> simp_all [SnapshotState.archived?]
        · rw [if_neg hstatus] at h
          cases h
  · intro h
    obtain ⟨n, hcore, hstatus, hstate⟩ := h
    obtain ⟨n, hn, rfl⟩ := Option.map_eq_some_iff.mp hcore
    exact recordAt_of_node? hn hstatus hstate

/-- The node of a visit holds the record of what its program left. -/
theorem Visit.Made.recordAt_eq {v : Visit P} (h : v.Made library r) :
    r.recordAt v.id = .ok (some v.left.toData) := by
  obtain ⟨n, hn, hcore⟩ := Option.map_eq_some_iff.mp h.node
  have hstatus : n.status = .archived := congrArg Node.status hcore
  have hstate : n.state = .archived v.left.toData := congrArg Node.state hcore
  exact recordAt_of_node? hn hstatus hstate

/-- What a program leaves is what its requests make of what it was given. -/
theorem Visit.Made.left_eq {v : Visit P} (h : v.Made library r) :
    v.left = (v.work.job.program library).change v.run.opened v.given := by
  rw [Visit.left, h.work, workOf, Script.work_snapshot, Script.work_job]
  rfl

/-- **Each step works on what the step before it handed on.**

In a finished run, every program began on the state that the one before it left, archived,
materialized, and changed by its last hook if it scheduled one; the first began on the initial
state, the records tell what each left, and the end of the run holds what the last one left. -/
theorem states_handed_on (h : (ofJob initial root config).Reaches library r)
    (hfinished : r.phase = .finished) :
    ∃ visits : List (Visit P),
      Driven library (ofJob initial root config) (visits.map (·.run)) r ∧
      visits.map (·.id) = r.timeline.chronological ∧
      (∀ v ∈ visits, v.Made library r ∧ r.recordAt v.id = .ok (some v.left.toData) ∧
        v.left = (v.work.job.program library).change v.run.opened v.given) ∧
      visits.head?.map (·.given) = some initial ∧
      (visits.IsChain fun v next => v.HandsOn library next.given) ∧
      ∃ last final, visits.getLast? = some last ∧ r.finalSnapshot? = some final ∧
        last.Ends library final := by
  obtain ⟨begun, hdriven⟩ := h.driven
  cases hdriven.standing with
  | aborted phase => simp [phase] at hfinished
  | idle visits jobs state runs told between awaited => simp [between.phase] at hfinished
  | finished visits data last runs told closed isLast ends =>
      obtain ⟨-, hchron, -, -, -⟩ := closed.order_eq
      refine ⟨visits, runs ▸ hdriven, hchron.symm,
        fun v hv => ⟨told.made v hv, (told.made v hv).recordAt_eq, (told.made v hv).left_eq⟩, ?_,
        told.chain, last, data, isLast, closed.finalSnapshot?_eq, ends⟩
      cases visits with
      | nil => simp at isLast
      | cons first visits => simp [told.first first rfl]

/-- The run of two programs and a hook, driven step by step. -/
theorem states_handed_on_scheduling :
    ∃ r, Reaches scheduling (ofJob oneSymbol (.named 0) {}) r ∧ r.phase = .finished ∧
      ∃ visits : List (Visit Nat), visits.map (·.id) = [⟨0⟩, ⟨1⟩] ∧
        visits.head?.map (·.given) = some oneSymbol := by
  have hreaches := ((.refl : Reaches scheduling (ofJob oneSymbol (.named 0) {}) _).command
    (Script.demand .step)).command (Script.demand .step)
  have hfinished : ((command scheduling (Script.demand .step)).apply
      ((command scheduling (Script.demand .step)).apply
        (ofJob oneSymbol (.named 0) {})).2).2.phase = .finished := by decide
  obtain ⟨visits, -, hids, -, hfirst, -⟩ := states_handed_on hreaches hfinished
  refine ⟨_, hreaches, hfinished, visits, ?_, hfirst⟩
  rw [hids]
  decide

end Run

end Chronicle
