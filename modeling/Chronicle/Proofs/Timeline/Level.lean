import Chronicle.Proofs.Edit
import Chronicle.Proofs.Timeline.Position
/-!
Timelines with one level below the root.

If no step but the root schedules others, all steps below the root are siblings, also those that
are there by repetition.  Then the chronological order is the row of the root's children, and the
position of each of them is its place in that row.
-/

namespace Chronicle

namespace Forest

/-- Nodes in a row, with nothing below them. -/
@[simp]
def ofRow : List NodeId → Forest
  | [] => nil
  | id :: ids => cons id nil (ofRow ids)

@[simp]
theorem order_ofRow (ids : List NodeId) : (ofRow ids).order = ids := by
  induction ids with
  | nil => rfl
  | cons id ids ih => rw [ofRow, order, ih, order, List.nil_append]

@[simp]
theorem roots_ofRow (ids : List NodeId) : (ofRow ids).roots = ids := by
  induction ids with
  | nil => rfl
  | cons id ids ih => rw [ofRow, roots, ih]

theorem push_ofRow (ids : List NodeId) (x : NodeId) : (ofRow ids).push x = ofRow (ids ++ [x]) := by
  induction ids with
  | nil => rfl
  | cons id ids ih => rw [ofRow, push, ih, List.cons_append, ofRow]

theorem above_ofRow (ids : List NodeId) (p : NodeId) : (ofRow ids).above p = [] := by
  induction ids with
  | nil => rfl
  | cons id ids ih => simp [ofRow, above, order, ih]

theorem exists_duplicate_ofRow (ids : List NodeId) (p x : NodeId) :
    ∃ ids', (ofRow ids).duplicate p x = ofRow ids' := by
  induction ids with
  | nil => exact ⟨[], rfl⟩
  | cons id ids ih =>
      obtain ⟨ids', hids'⟩ := ih
      by_cases hid : id = p
      · exact ⟨id :: x :: ids, by rw [ofRow, duplicate, if_pos hid, ofRow, ofRow]⟩
      · refine ⟨id :: ids', ?_⟩
        rw [ofRow, duplicate, if_neg hid, if_neg (by simp [order]), hids', ofRow]

end Forest

namespace Timeline

variable {P : Type} {t t' : Timeline P}

/-- There is one row of nodes below the root, and nothing below these. -/
def Level (t : Timeline P) : Prop := ∃ ids, t.Shape (.cons root (.ofRow ids) .nil)

theorem level_ofRoot (job : P) (initial : SnapshotState) : (ofRoot job initial).Level :=
  ⟨[], shape_ofRoot job initial⟩

namespace Level

theorem modify (h : t.Level) (id : NodeId) {g : Node P → Node P}
    (hplace : ∀ n, (g n).place = n.place) : (t.modify id g).Level := by
  obtain ⟨ids, hshape⟩ := h
  exact ⟨ids, hshape.modify id hplace⟩

/-- Only the root may schedule. -/
theorem adopt (h : t.Level) {job : P} {child : NodeId}
    (hadopt : t.adopt root job = .ok (child, t')) : t'.Level := by
  obtain ⟨ids, hshape⟩ := h
  obtain ⟨t₁, hanswer, hshape', -⟩ := hshape.adopt List.mem_cons_self job
  rw [hanswer] at hadopt
  obtain ⟨-, rfl⟩ := Prod.mk.inj (Except.ok.inj hadopt)
  refine ⟨ids ++ [⟨t.size⟩], ?_⟩
  rw [← Forest.push_ofRow]
  rwa [Forest.adopt, if_pos rfl] at hshape'

/-- A copy stands in the row of its original. -/
theorem duplicate (h : t.Level) {id copy : NodeId} (hdup : t.duplicate id = .ok (copy, t')) :
    t'.Level := by
  obtain ⟨ids, hshape⟩ := h
  obtain ⟨source, hsource, hrest⟩ := exists_of_bind_eq_ok hdup
  cases hparent : source.parent with
  | none =>
      rw [hparent] at hrest
      cases hrest
  | some parent =>
      obtain ⟨t₁, hanswer, hshape', -⟩ := hshape.duplicate (node_eq_ok.mp hsource) hparent
      rw [hanswer] at hdup
      obtain ⟨-, rfl⟩ := Prod.mk.inj (Except.ok.inj hdup)
      by_cases hroot : root = id
      · -- The root would get a sibling.
        obtain ⟨below, hbelow⟩ := hshape'.root
        rw [Forest.duplicate, if_pos hroot] at hbelow
        simp at hbelow
      · obtain ⟨ids', hids'⟩ := Forest.exists_duplicate_ofRow ids id ⟨t.size⟩
        by_cases hmem : id ∈ (Forest.ofRow ids).order
        · exact ⟨ids', by rwa [Forest.duplicate, if_neg hroot, if_pos hmem, hids'] at hshape'⟩
        · exact ⟨ids, by
            rwa [Forest.duplicate, if_neg hroot, if_neg hmem, Forest.duplicate] at hshape'⟩

theorem children_eq {ids : List NodeId} (h : t.Shape (.cons root (.ofRow ids) .nil)) :
    t.children root = ids := by
  rw [(h.children_eq List.mem_cons_self).2, Forest.under, if_pos rfl, Forest.roots_ofRow]

/-- All steps are the root and its children, in their order. -/
theorem chronological_eq (h : t.Level) : t.chronological = root :: t.children root := by
  obtain ⟨ids, hshape⟩ := h
  rw [children_eq hshape, hshape.chronological_eq, Forest.order, Forest.order_ofRow, Forest.order,
    List.append_nil]

/-- The position of a child of the root is its place among the children. -/
theorem position_eq (h : t.Level) {i : Nat} {p : NodeId}
    (hp : (t.children root)[i]? = some p) : t.position p = [i + 1] := by
  obtain ⟨ids, hshape⟩ := h
  have hchildren := children_eq hshape
  rw [hchildren] at hp
  have hmem : p ∈ ids := List.mem_of_getElem? hp
  obtain ⟨below, hbelow, hthreads, hroot, hnodup, -⟩ := hshape.exists_below
  obtain rfl : Forest.ofRow ids = below := by simpa using hbelow
  rw [Forest.order_ofRow] at hroot hnodup
  have hne : ¬root = p := fun hc => hroot (hc ▸ hmem)
  have habove : t.ancestors p = [root] := by
    rw [(hshape.ancestors_eq (by simp [Forest.order, hmem])).2, Forest.above, if_neg hne,
      if_pos (by simpa using hmem), Forest.above_ofRow, List.nil_append]
  have hrank : t.rank p = i + 1 := by
    rw [rank, hthreads.parent_of_mem_roots (by simpa using hmem), Option.elim_some, hchildren]
    obtain ⟨hlt, rfl⟩ := List.getElem?_eq_some_iff.mp hp
    rw [hnodup.idxOf_getElem]
  rw [position, habove]
  simp [hrank]

end Level

end Timeline

end Chronicle
