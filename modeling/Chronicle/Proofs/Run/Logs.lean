import Chronicle.Proofs.Run.Graded
import Chronicle.Proofs.Run.Plan
/-!
Where in the tree the entries of a log stand.

The plan of a run says what the run has left after so many steps: the beginning of its log, one
entry for each node in chronological order (`Driven.logged`).  If the library is graded, the jobs in
the log also tell where in the tree each node stands (`Logged.placed`).
-/

namespace Chronicle

variable {P : Type}

namespace Run

variable {library : Library P} {r : Run P} {final : SnapshotData} {ids : List NodeId}
  {log whole : List (Plan.Entry P)} {initial : Snapshot} {root : Job P} {config : RunConfig}

/-- **What a run that goes as planned has left so far is the beginning of the log of the plan**, in
chronological order, and nothing else is archived.  When the run is finished, it is all of it. -/
theorem Driven.logged {begun : List (Run P)}
    (h : Driven library (ofJob initial root config) begun r)
    (hruns : Plan.Runs library final ⟨0, [root], initial⟩ whole) :
    r.Logged (r.timeline.chronological.take r.steps) (whole.take r.steps) ∧
      r.timeline.ArchivedUpTo r.steps ∧ (r.phase = .finished → r.steps = whole.length) := by
  cases h.planned (planned_ofJob config hruns) with
  | @waits p log rest follows runs all =>
      obtain ⟨done, state, hbetween, hopens, hmade, hlogged⟩ := follows
      obtain ⟨-, htake, harchived, -⟩ := hbetween.order_eq
      refine ⟨?_, harchived, fun hfinished => by simp [hbetween.phase] at hfinished⟩
      rw [htake, all, List.take_left' (hlogged.length_eq.symm.trans hbetween.steps.symm)]
      exact hlogged
  | finished left =>
      obtain ⟨done, hclosed, hlogged⟩ := left
      obtain ⟨⟨f, hshape, horder⟩, hdone, -, harchived, -⟩ := hclosed.order_eq
      have hsteps : r.steps = whole.length := hclosed.steps.trans hlogged.length_eq
      refine ⟨?_, fun id n hn => ?_, fun _ => hsteps⟩
      · rw [hdone, hclosed.steps, List.take_length, hlogged.length_eq, List.take_length]
        exact hlogged
      · rw [if_pos, harchived id n hn]
        rw [hdone, hclosed.steps, List.take_length, ← hdone, horder]
        exact hshape.mem_iff.mpr ⟨n, hn⟩

/-- A run that has left its log holds a record in every node. -/
theorem Left.exists_record (h : r.Left final log) {id : NodeId} {n : Node (Job P)}
    (hn : r.timeline.node? id = some n) :
    n.status = .archived ∧ ∃ data, r.recordAt id = .ok (some data) := by
  obtain ⟨done, hclosed, -⟩ := h
  obtain ⟨⟨f, hshape, horder⟩, hdone, -, harchived, -⟩ := hclosed.order_eq
  have hid : id ∈ done := by
    rw [← hdone, horder]
    exact hshape.mem_iff.mpr ⟨n, hn⟩
  obtain ⟨m, data, hrecord⟩ := hclosed.stands.past id hid
  exact ⟨harchived id n hn, data, recordAt_eq_ok.mpr ⟨m, hrecord⟩⟩

/-! ### The labels -/

/-- What is known of the entries is known of the nodes. -/
theorem Logged.exists_of_mem {p : NodeId → Plan.Entry P → Prop} (h : r.Logged ids log)
    (hall : List.Forall₂ p ids log) : ∀ id ∈ ids, ∃ e, r.timeline.HasEntry id e ∧ p id e := by
  unfold Logged at h
  induction h with
  | nil => exact fun id hid => by cases hid
  | cons hfirst _ ih =>
      cases hall with
      | cons hp hrest =>
          intro id hid
          rcases List.mem_cons.mp hid with rfl | hid
          · exact ⟨_, hfirst, hp⟩
          · exact ih hrest id hid

/-- The labels of the nodes are their positions. -/
theorem Logged.map_labelOf_eq (h : r.Logged ids log) (hmarked : r.Marked) :
    ids.map (fun id => (r.timeline.labelOf id).path) = ids.map r.timeline.position := by
  unfold Logged at h
  induction h with
  | nil => rfl
  | cons hfirst _ ih =>
      rw [List.map_cons, List.map_cons, ih, hmarked.labelOf_eq hfirst.record]

/-- In a graded timeline the depths of the nodes are the levels of the jobs. -/
theorem Logged.depths_eq {level : Job P → Option Nat} {f : Forest} (h : r.Logged ids log)
    (hgraded : r.timeline.Graded level) (hshape : r.timeline.Shape f) :
    ids.map (fun id => some (r.timeline.depth id)) = log.map fun e => level e.job := by
  unfold Logged at h
  induction h with
  | nil => rfl
  | cons hfirst _ ih =>
      obtain ⟨n, hn, hjob⟩ := hfirst.exists_node
      rw [List.map_cons, List.map_cons, ih, ← hjob, hgraded.depth_eq hshape hn]

/-- If what fits a path is at home on its level, the levels of the log are the lengths of the
paths. -/
theorem map_level_eq {level : Job P → Option Nat} {fits : List Nat → Plan.Entry P → Prop}
    {paths : List (List Nat)} (h : List.Forall₂ fits paths log)
    (hlevels : ∀ path e, fits path e → level e.job = some path.length) :
    log.map (fun e => level e.job) = paths.map fun path => some path.length := by
  induction h with
  | nil => rfl
  | cons hfirst _ ih => rw [List.map_cons, List.map_cons, ih, hlevels _ _ hfirst]

/-- **What stands at which place can be told from the log.**  Let the paths be those of some
pre-order, from the root on, and let each fit the entry at its index; what fits is at home on the
level of the path.  Then the paths are those of the labels, and every node that is done has an entry
that fits its label. -/
theorem Logged.placed {level : Job P → Option Nat} {fits : List Nat → Plan.Entry P → Prop}
    {paths : List (List Nat)} {count : Nat}
    (h : r.Logged (r.timeline.chronological.take count) (whole.take count)) (hmarked : r.Marked)
    (hgraded : r.timeline.Graded level)
    (hpaths : paths.IsChain fun path next => next = Forest.onward path next.length)
    (hhead : paths.head? = some []) (hfits : List.Forall₂ fits paths whole)
    (hlevels : ∀ path e, fits path e → level e.job = some path.length) :
    (r.timeline.chronological.take count).map (fun id => (r.timeline.labelOf id).path)
        = paths.take count ∧
      ∀ id ∈ r.timeline.chronological.take count, ∃ e, r.timeline.HasEntry id e ∧
        fits (r.timeline.labelOf id).path e := by
  obtain ⟨begun, rest, hlabelled⟩ := id hmarked
  obtain ⟨f, hshape⟩ := hlabelled.exists_shape
  have hfits := List.forall₂_take count hfits
  have hlabels : (r.timeline.chronological.take count).map (fun id => (r.timeline.labelOf id).path)
      = paths.take count := by
    obtain ⟨hchain, hfirst⟩ := hshape.positions_chain
    rw [h.map_labelOf_eq hmarked, List.map_take]
    refine Forest.eq_of_onward (hchain.take count) (hpaths.take count) ?_ ?_
    · rw [List.head?_take, List.head?_take, hfirst, hhead]
    have hlengths := (h.depths_eq hgraded hshape).trans (map_level_eq hfits hlevels)
    rw [← List.map_take, List.map_map,
      funext (f := List.length ∘ r.timeline.position) r.timeline.length_position]
    refine List.map_injective_iff.mpr (fun _ _ => Option.some.inj) ?_
    rw [List.map_map, List.map_map]
    exact hlengths
  refine ⟨hlabels, ?_⟩
  rw [← hlabels, List.forall₂_map_left_iff] at hfits
  exact h.exists_of_mem hfits

end Run

end Chronicle
