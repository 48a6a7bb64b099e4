import Chronicle.Proofs.Timeline.Order
import Chronicle.Run.Basic
import Mathlib.Data.List.Forall2
/-!
How the nodes of a run are laid out in the chronological order.

At any time the order falls into three parts: the nodes whose step is archived (`Past`), the node
whose step is under way if there is one, and the nodes that still wait for theirs (`Queue`).  A
waiting node is untouched: it has a program and maybe a state, and nothing below it.

`Stands r done jobs state` is that layout between two steps, or while the hook of a step is at
work.  `done` are the archived nodes and `jobs` the programs of the waiting ones; the first of
these holds `state`, and if none waits, the end of the run does (`Front`).

`Underway` is the layout in the middle of a step.  The steps that were scheduled in it come first
among those that wait, and the copy that a repetition asks for comes right behind them; then
follow the steps that were waiting when it began.  So nothing is ever put among the archived
nodes, which is why they stay the beginning of the order.
-/

namespace Chronicle

namespace Timeline

variable {P : Type} {t t' : Timeline P}

/-- The step of the node is archived. -/
def Past (t : Timeline P) (id : NodeId) : Prop :=
  ∃ n data, t.core? id = some n ∧ n.status = .archived ∧ n.state = .archived data

/-- The step of the node is to come; nothing of it is set but its program and `state`. -/
def Awaits (t : Timeline P) (id : NodeId) (job : P) (state : SnapshotState) : Prop :=
  t.core? id = some { Node.scheduled job with state := state } ∧
    (t.place? id).bind (·.firstChild) = none

/-- The steps of the nodes are to come, with these programs, and none of them has a state yet. -/
def Queue (t : Timeline P) : List NodeId → List P → Prop :=
  List.Forall₂ fun id job => t.Awaits id job .pending

/-- What a listener hears when the step of a node is done. -/
def eventOf (t : Timeline P) (id : NodeId) : Event :=
  match t.node? id with
  | some n => .step n.label n.name
  | none => .step .root ""

theorem eventOf_eq (t : Timeline P) (id : NodeId) :
    t.eventOf id = match t.core? id with
      | some n => .step n.label n.name
      | none => .step .root "" := by
  unfold eventOf core?
  cases t.node? id <;> rfl

/-! ### What a change elsewhere leaves alone -/

theorem Past.frame {id : NodeId} (h : t.Past id) (hcore : t'.core? id = t.core? id) :
    t'.Past id := by
  obtain ⟨n, data, hn, hstatus, hstate⟩ := h
  exact ⟨n, data, hcore.trans hn, hstatus, hstate⟩

theorem Awaits.frame {id : NodeId} {job : P} {state : SnapshotState} (h : t.Awaits id job state)
    (hcore : t'.core? id = t.core? id)
    (hfirst : (t'.place? id).bind (·.firstChild) = (t.place? id).bind (·.firstChild)) :
    t'.Awaits id job state :=
  ⟨hcore.trans h.1, hfirst.trans h.2⟩

theorem Queue.frame {ids : List NodeId} {jobs : List P} (h : t.Queue ids jobs)
    (hcore : ∀ id ∈ ids, t'.core? id = t.core? id)
    (hfirst : ∀ id ∈ ids,
      (t'.place? id).bind (·.firstChild) = (t.place? id).bind (·.firstChild)) :
    t'.Queue ids jobs := by
  induction h with
  | nil => exact .nil
  | cons hid _ ih =>
      refine .cons (hid.frame (hcore _ List.mem_cons_self) (hfirst _ List.mem_cons_self)) (ih ?_ ?_)
      · exact fun id h => hcore id (List.mem_cons_of_mem _ h)
      · exact fun id h => hfirst id (List.mem_cons_of_mem _ h)

theorem eventOf_congr {id : NodeId} (hcore : t'.core? id = t.core? id) :
    t'.eventOf id = t.eventOf id := by
  rw [eventOf_eq, eventOf_eq, hcore]

/-- What is heard of one node more. -/
theorem map_eventOf_snoc {ids : List NodeId} {id : NodeId} {n : Node P}
    (hkept : ∀ q ∈ ids, t'.core? q = t.core? q) (hcore : t'.core? id = some n) :
    (ids ++ [id]).map t'.eventOf = ids.map t.eventOf ++ [.step n.label n.name] := by
  have hmap : ids.map t'.eventOf = ids.map t.eventOf :=
    List.map_congr_left fun q hq => eventOf_congr (hkept q hq)
  rw [List.map_append, List.map_singleton, hmap, eventOf_eq, hcore]

/-- A node that waits is a leaf of the tree. -/
theorem Awaits.under_eq_nil {f : Forest} {id : NodeId} {job : P} {state : SnapshotState}
    (h : t.Awaits id job state) (hshape : t.Shape f) : f.under id = .nil := by
  obtain ⟨n, hn, -⟩ := Option.map_eq_some_iff.mp h.1
  refine hshape.under_eq_nil hn ?_
  have hfirst := h.2
  rw [place?, hn] at hfirst
  exact hfirst

end Timeline

namespace Run

variable {P : Type} {r : Run P} {done : List NodeId} {jobs : List (Job P)} {state : SnapshotState}

/-- Where the state is that was handed on: at the first of the waiting nodes, or at the end. -/
inductive Front (r : Run P) : List NodeId → List (Job P) → SnapshotState → Prop
  | next {rest : List NodeId} {job : Job P} {jobs : List (Job P)} {state : SnapshotState}
      (final : r.final = .pending) (current : r.timeline.Awaits r.current job state)
      (queue : r.timeline.Queue rest jobs) : Front r (r.current :: rest) (job :: jobs) state
  | last {state : SnapshotState} (final : r.final = state) : Front r [] [] state

/-- The layout of a run when no program is at work. -/
structure Stands (r : Run P) (done : List NodeId) (jobs : List (Job P)) (state : SnapshotState) :
    Prop where
  layout : ∃ f ids, r.timeline.Shape f ∧ f.order = done ++ ids ∧ Front r ids jobs state
  past : ∀ id ∈ done, r.timeline.Past id
  ready : state ≠ .pending

namespace Stands

/-- What beside the timeline, the final state and the current node changes does not matter. -/
theorem congr {r' : Run P} (h : r.Stands done jobs state) (htimeline : r'.timeline = r.timeline)
    (hfinal : r'.final = r.final) (hcurrent : r'.current = r.current) :
    r'.Stands done jobs state := by
  obtain ⟨⟨f, ids, hshape, horder, hfront⟩, hpast, hready⟩ := h
  refine ⟨⟨f, ids, htimeline ▸ hshape, horder, ?_⟩, fun id hid => htimeline ▸ hpast id hid, hready⟩
  cases hfront with
  | next final current queue =>
      rw [← hcurrent]
      refine .next (hfinal.trans final) ?_ ?_
      · rw [htimeline, hcurrent]
        exact current
      · rw [htimeline]
        exact queue
  | last final => exact .last (hfinal.trans final)

/-- The state that was handed on is where a hook would work, and it can be exchanged there. -/
theorem exists_workplace (h : r.Stands done jobs state) :
    ∃ place, (r.phase = .hook → r.workplace? = some place) ∧ r.stateIn place = state ∧
      ∀ next, next ≠ .pending → (r.putState place next).Stands done jobs next ∧
        (r.putState place next).current = r.current ∧
        (jobs ≠ [] → (r.putState place next).final = r.final) ∧
        ∀ id ∈ done, (r.putState place next).timeline.core? id = r.timeline.core? id := by
  obtain ⟨⟨f, ids, hshape, horder, hfront⟩, hpast, hready⟩ := h
  cases hfront with
  | @next rest job jobs state final current queue =>
      refine ⟨.node r.current, ?_, ?_, fun next hnext => ?_⟩
      · intro hphase
        simp [workplace?, hphase, final]
      · obtain ⟨n, hn, hcore⟩ := Option.map_eq_some_iff.mp current.1
        have hstate : n.state = state := congrArg Node.state hcore
        simp [stateIn, hn, hstate]
      · have hnodup := hshape.nodup
        rw [horder] at hnodup
        have hnotDone : ∀ id ∈ done, id ≠ r.current := by
          intro id hid heq
          subst heq
          exact (List.nodup_append.mp hnodup).2.2 _ hid _ List.mem_cons_self rfl
        have hnotRest : ∀ id ∈ rest, id ≠ r.current := by
          intro id hid heq
          subst heq
          exact (List.nodup_cons.mp (List.nodup_append.mp hnodup).2.1).1 hid
        have hcore : ∀ id, (r.putState (.node r.current) next).timeline.core? id
            = if id = r.current then (r.timeline.core? id).map ({ · with state := next })
              else r.timeline.core? id :=
          fun id => Timeline.core?_modify _ _ _ _ _ fun _ => rfl
        have hplace : ∀ id, (r.putState (.node r.current) next).timeline.place? id
            = r.timeline.place? id :=
          fun id => Timeline.place?_modify_of_place _ _ _ _ fun _ => rfl
        have hkept : ∀ id, id ≠ r.current →
            (r.putState (.node r.current) next).timeline.core? id = r.timeline.core? id :=
          fun id hid => (hcore id).trans (if_neg hid)
        refine ⟨⟨⟨f, r.current :: rest, ?_, horder, ?_⟩, ?_, hnext⟩, rfl, fun _ => rfl, ?_⟩
        · exact hshape.modify _ fun _ => rfl
        · refine .next final ⟨?_, ?_⟩ (queue.frame ?_ ?_)
          · show Timeline.core? _ r.current = _
            rw [hcore, if_pos rfl, current.1]
            rfl
          · rw [hplace]
            exact current.2
          · exact fun id hid => hkept id (hnotRest id hid)
          · exact fun id _ => by rw [hplace]
        · exact fun id hid => (hpast id hid).frame (hkept id (hnotDone id hid))
        · exact fun id hid => hkept id (hnotDone id hid)
  | last final =>
      refine ⟨.final, ?_, final, fun next hnext => ?_⟩
      · intro hphase
        have hne : r.final ≠ .pending := final ▸ hready
        simp [workplace?, hphase, hne]
      · exact ⟨⟨⟨f, [], hshape, horder, .last rfl⟩, hpast, hnext⟩, rfl, fun h => absurd rfl h,
          fun _ _ => rfl⟩

end Stands

/-! ### In the middle of a step -/

/-- The layout of a run while the step of `id` is under way: `scheduled` are the programs of the
steps that were scheduled in it, and `rest` those of the steps that were waiting when it began. -/
structure Underway (r : Run P) (done : List NodeId) (id : NodeId) (scheduled rest : List (Job P)) :
    Prop where
  final : r.final = .pending
  layout : ∃ f kids ids, r.timeline.Shape f ∧ f.order = done ++ id :: (kids ++ ids) ∧
    (f.under id).order = kids ∧ r.timeline.Queue kids scheduled ∧ r.timeline.Queue ids rest
  past : ∀ q ∈ done, r.timeline.Past q

/-- The same when nothing more is to be put into the timeline: `jobs` are the programs to come. -/
structure Ended (r : Run P) (done : List NodeId) (id : NodeId) (jobs : List (Job P)) : Prop where
  final : r.final = .pending
  layout : ∃ f ids, r.timeline.Shape f ∧ f.order = done ++ id :: ids ∧ r.timeline.Queue ids jobs
  past : ∀ q ∈ done, r.timeline.Past q

namespace Underway

variable {id : NodeId} {scheduled rest : List (Job P)}

theorem congr {r' : Run P} (h : r.Underway done id scheduled rest)
    (htimeline : r'.timeline = r.timeline) (hfinal : r'.final = r.final) :
    r'.Underway done id scheduled rest := by
  refine ⟨hfinal.trans h.final, ?_, ?_⟩
  · rw [htimeline]
    exact h.layout
  · rw [htimeline]
    exact h.past

/-- The archived nodes are not the one whose step is under way. -/
theorem ne (h : r.Underway done id scheduled rest) {q : NodeId} (hq : q ∈ done) : q ≠ id := by
  obtain ⟨f, kids, ids, hshape, horder, -⟩ := h.layout
  have hnodup := hshape.nodup
  rw [horder] at hnodup
  intro heq
  subst heq
  exact (List.nodup_append.mp hnodup).2.2 _ hq _ List.mem_cons_self rfl

theorem ended (h : r.Underway done id scheduled rest) : r.Ended done id (scheduled ++ rest) := by
  obtain ⟨hfinal, ⟨f, kids, ids, hshape, horder, -, hqueue, hrest⟩, hpast⟩ := h
  exact ⟨hfinal, ⟨f, kids ++ ids, hshape, horder, List.rel_append hqueue hrest⟩, hpast⟩

/-- What is not a link of the node can be changed. -/
theorem modify (h : r.Underway done id scheduled rest) {g : Node (Job P) → Node (Job P)}
    (hplace : ∀ n, (g n).place = n.place) :
    (r.modifyNode id g).Underway done id scheduled rest := by
  have hne := @ne _ _ _ _ _ _ h
  obtain ⟨hfinal, ⟨f, kids, ids, hshape, horder, hkids, hqueue, hrest⟩, hpast⟩ := h
  have hnodup := hshape.nodup
  rw [horder, List.nodup_append] at hnodup
  have hnotBehind : ∀ q ∈ kids ++ ids, q ≠ id := by
    intro q hq heq
    subst heq
    exact (List.nodup_cons.mp hnodup.2.1).1 hq
  have hkept : ∀ q, q ≠ id → (r.modifyNode id g).timeline.core? q = r.timeline.core? q :=
    fun q hq => Timeline.core?_modify_of_ne _ _ hq
  have hlinks : ∀ q, (r.modifyNode id g).timeline.place? q = r.timeline.place? q :=
    fun q => Timeline.place?_modify_of_place _ _ _ _ hplace
  refine ⟨hfinal, ⟨f, kids, ids, hshape.modify _ hplace, horder, hkids, ?_, ?_⟩, ?_⟩
  · refine hqueue.frame (fun q hq => hkept q ?_) fun q _ => by rw [hlinks]
    exact hnotBehind q (List.mem_append_left _ hq)
  · refine hrest.frame (fun q hq => hkept q ?_) fun q _ => by rw [hlinks]
    exact hnotBehind q (List.mem_append_right _ hq)
  · exact fun q hq => (hpast q hq).frame (hkept q (hne hq))

/-- A step that is scheduled comes behind those that were scheduled before. -/
theorem adopt (h : r.Underway done id scheduled rest) (job : Job P) :
    ∃ t', r.timeline.adopt id job = .ok (⟨r.timeline.size⟩, t') ∧
      Underway { r with timeline := t' } done id (scheduled ++ [job]) rest ∧
      ∀ q ∈ id :: done, t'.core? q = r.timeline.core? q := by
  obtain ⟨hfinal, ⟨f, kids, ids, hshape, horder, hkids, hqueue, hrest⟩, hpast⟩ := h
  have hmem : id ∈ f.order := by simp [horder]
  obtain ⟨t', hadopt, hshape', hgrown, hfirst⟩ := hshape.adopt hmem job
  have hnodup := hshape.nodup
  rw [horder, List.nodup_append] at hnodup
  have hnotBehind : ∀ q ∈ kids ++ ids, q ≠ id := by
    intro q hq heq
    subst heq
    exact (List.nodup_cons.mp hnodup.2.1).1 hq
  have hfresh : (⟨r.timeline.size⟩ : NodeId) ≠ id := fun hc => hshape.size_not_mem (hc ▸ hmem)
  have hkept : ∀ q ∈ f.order, t'.core? q = r.timeline.core? q := fun q hq =>
    hgrown.kept q ((hshape.complete q).mp hq)
  refine ⟨t', hadopt, ⟨hfinal, ⟨f.adopt id ⟨r.timeline.size⟩, kids ++ [⟨r.timeline.size⟩], ids,
    hshape', ?_, ?_, ?_, ?_⟩, ?_⟩, ?_⟩
  · rw [(Forest.order_grown ⟨r.timeline.size⟩ hshape.nodup (hkids ▸ horder)).1, hkids]
    simp
  · rw [Forest.under_adopt_self _ hmem, Forest.order_push, hkids]
  · refine List.rel_append (hqueue.frame ?_ ?_) (.cons ⟨hgrown.fresh, ?_⟩ .nil)
    · exact fun q hq => hkept q (by simp [horder, hq])
    · exact fun q hq => hfirst q (hnotBehind q (List.mem_append_left _ hq))
    · rw [hfirst _ hfresh, Timeline.place?_size]
      rfl
  · refine hrest.frame ?_ ?_
    · exact fun q hq => hkept q (by simp [horder, hq])
    · exact fun q hq => hfirst q (hnotBehind q (List.mem_append_right _ hq))
  · exact fun q hq => (hpast q hq).frame (hkept q (by simp [horder, hq]))
  · intro q hq
    rcases List.mem_cons.mp hq with rfl | hq
    · exact hkept q hmem
    · exact hkept q (by simp [horder, hq])

/-- Only the root, with which a run begins, has no parent. -/
theorem exists_parent (h : r.Underway done id scheduled rest) (hdone : done ≠ [])
    {n : Node (Job P)} (hn : r.timeline.node? id = some n) : ∃ parent, n.parent = some parent := by
  obtain ⟨-, ⟨f, kids, ids, hshape, horder, -⟩, -⟩ := h
  have hpl : r.timeline.place? id = some n.place := by rw [Timeline.place?, hn]; rfl
  obtain ⟨below, hroot⟩ := hshape.root
  obtain ⟨-, hbelow, -⟩ := hroot ▸ hshape.threads
  have hmem : id ∈ below.order := by
    cases done with
    | nil => exact absurd rfl hdone
    | cons first done =>
        rw [hroot] at horder
        simp only [Forest.order, List.append_nil, List.cons_append, List.cons.injEq] at horder
        simp [horder.2]
  rcases hbelow.parent_mem hmem hpl with hparent | ⟨q, -, hparent⟩
  · exact ⟨_, hparent⟩
  · exact ⟨_, hparent⟩

/-- The root cannot be repeated. -/
theorem duplicate_root (h : r.Underway [] id scheduled rest) :
    r.timeline.duplicate id = .error .duplicateRoot := by
  obtain ⟨-, ⟨f, kids, ids, hshape, horder, -⟩, -⟩ := h
  obtain ⟨below, rfl⟩ := hshape.root
  simp only [Forest.order, List.nil_append, List.cons.injEq] at horder
  obtain ⟨n, hn, hpl⟩ := Option.map_eq_some_iff.mp (horder.1 ▸ hshape.threads.1)
  have hparent : n.parent = none := congrArg Place.parent hpl
  simp only [Timeline.duplicate, Timeline.node_eq_ok.mpr hn, bind, Except.bind, hparent]
  rfl

/-- The copy of a step comes behind those that it scheduled. -/
theorem duplicate (h : r.Underway done id scheduled rest) (hdone : done ≠ [])
    {n : Node (Job P)} (hn : r.timeline.node? id = some n) :
    ∃ t', r.timeline.duplicate id = .ok (⟨r.timeline.size⟩, t') ∧
      Ended { r with timeline := t' } done id (scheduled ++ n.program :: rest) ∧
      ∀ q ∈ id :: done, t'.core? q = r.timeline.core? q := by
  obtain ⟨parent, hparent⟩ := h.exists_parent hdone hn
  obtain ⟨hfinal, ⟨f, kids, ids, hshape, horder, hkids, hqueue, hrest⟩, hpast⟩ := h
  obtain ⟨t', hdup, hshape', hgrown, hfirst⟩ := hshape.duplicate hn hparent
  have hkept : ∀ q ∈ f.order, t'.core? q = r.timeline.core? q := fun q hq =>
    hgrown.kept q ((hshape.complete q).mp hq)
  refine ⟨t', hdup, ⟨hfinal, ⟨f.duplicate id ⟨r.timeline.size⟩,
    kids ++ ⟨r.timeline.size⟩ :: ids, hshape', ?_, ?_⟩, ?_⟩, ?_⟩
  · rw [(Forest.order_grown ⟨r.timeline.size⟩ hshape.nodup (hkids ▸ horder)).2, hkids]
  · refine List.rel_append (hqueue.frame ?_ ?_) (.cons ⟨hgrown.fresh, ?_⟩ (hrest.frame ?_ ?_))
    · exact fun q hq => hkept q (by simp [horder, hq])
    · exact fun q _ => hfirst q
    · rw [hfirst, Timeline.place?_size]
      rfl
    · exact fun q hq => hkept q (by simp [horder, hq])
    · exact fun q _ => hfirst q
  · exact fun q hq => (hpast q hq).frame (hkept q (by simp [horder, hq]))
  · intro q hq
    rcases List.mem_cons.mp hq with rfl | hq
    · exact hkept q (by simp [horder])
    · exact hkept q (by simp [horder, hq])

end Underway

end Run

end Chronicle
