import Chronicle.Proofs.Timeline.Loops
/-!
The rows of children, and the pre-order that is made of them.

The children of a node are what the links to the next sibling lead to from its first child.  In
the tree they are the roots of what stands under the node (`Shape.children_eq`).  With the rows of
children alone, and no other link, the pre-order is said by its recursion: a node, then the
subtrees of its children, sibling after sibling (`PreOrder`).  The chronological order is that one.
-/

namespace Chronicle

namespace Forest

/-- The roots of the trees in the row. -/
def roots : Forest → List NodeId
  | nil => []
  | cons id _ behind => id :: behind.roots

theorem length_roots_le (f : Forest) : f.roots.length ≤ f.order.length := by
  induction f with
  | nil => exact Nat.le_refl _
  | cons id below behind _ ih =>
      simp only [roots, order, List.length_cons, List.length_append]
      omega

theorem mem_order_of_mem_roots {f : Forest} {q : NodeId} (h : q ∈ f.roots) : q ∈ f.order := by
  induction f with
  | nil => simp [roots] at h
  | cons id below behind _ ih =>
      rw [mem_order_cons]
      exact (List.mem_cons.mp h).imp_right fun h => Or.inr (ih h)

end Forest

namespace Timeline

variable {P : Type} {t : Timeline P} {f : Forest}

/-- The next sibling. -/
def next? (t : Timeline P) (id : NodeId) : Option NodeId := (t.node? id).bind (·.next)

namespace Threads

variable {parent prev : Option NodeId}

/-- The links between siblings lead through the roots of a row. -/
theorem iterates_next (h : t.Threads parent prev f) : Iterates t.next? f.first? f.roots := by
  induction f generalizing parent prev with
  | nil => exact .done
  | cons id below behind _ ih =>
      obtain ⟨hid, -, hbehind⟩ := h
      obtain ⟨n, hn, hpl⟩ := Option.map_eq_some_iff.mp hid
      have hnext : t.next? id = behind.first? := by
        rw [next?, hn]
        exact congrArg Place.next hpl
      exact .visit (hnext ▸ ih hbehind)

/-- What stands under a node is threaded below it. -/
theorem threads_under (h : t.Threads parent prev f) {p : NodeId} (hp : p ∈ f.order) :
    t.Threads (some p) none (f.under p) := by
  induction f generalizing parent prev with
  | nil => simp [Forest.order] at hp
  | cons id below behind ihBelow ihBehind =>
      obtain ⟨-, hbelow, hbehind⟩ := h
      by_cases hid : id = p
      · subst hid
        rw [Forest.under, if_pos rfl]
        exact hbelow
      · by_cases hb : p ∈ below.order
        · rw [Forest.under, if_neg hid, if_pos hb]
          exact ihBelow hbelow hb
        · rw [Forest.under, if_neg hid, if_neg hb]
          exact ihBehind hbehind (Forest.mem_behind hp hid hb)

end Threads

/-- The children of a node as the links tell them, given that its first child is the first of a
threaded row. -/
theorem children_of_threads {id : NodeId} {pl : Place} {row : Forest}
    (hpl : t.place? id = some pl) (hfirst : pl.firstChild = row.first?)
    (hrow : t.Threads (some id) none row) (hsize : row.order.length ≤ t.size) :
    Iterates t.next? ((t.node? id).bind (·.firstChild)) (t.children id) ∧
      t.children id = row.roots := by
  obtain ⟨n, hn, rfl⟩ := Option.map_eq_some_iff.mp hpl
  have hstart : (t.node? id).bind (·.firstChild) = row.first? := by
    rw [hn]
    exact hfirst
  have hiterates := hrow.iterates_next
  have hchildren : t.children id = row.roots := by
    rw [children, hstart]
    exact hiterates.follow_eq (Nat.le_trans row.length_roots_le hsize)
  exact ⟨hstart ▸ hchildren ▸ hiterates, hchildren⟩

namespace Shape

/-- The children of a node are the roots of what stands under it, and iterating over them ends. -/
theorem children_eq (h : t.Shape f) {id : NodeId} (hid : id ∈ f.order) :
    Iterates t.next? ((t.node? id).bind (·.firstChild)) (t.children id) ∧
      t.children id = (f.under id).roots := by
  obtain ⟨n, hn⟩ := h.mem_iff.mp hid
  have hpl : t.place? id = some n.place := by rw [place?, hn]; rfl
  have hunder := h.threads.threads_under hid
  refine children_of_threads hpl (h.threads.under hid hpl).1 hunder ?_
  obtain ⟨before, later, horder, -, -⟩ := Forest.order_split hid
  rw [← h.length_order, horder]
  simp only [List.length_append, List.length_cons]
  omega

end Shape

/-- `order` is the pre-order of the subtrees of `row`: a node, then the subtrees of its children in
their order, then those behind it in the row. -/
inductive PreOrder (t : Timeline P) : (row order : List NodeId) → Prop
  | nil : PreOrder t [] []
  | cons {id : NodeId} {row below behind : List NodeId} (hbelow : PreOrder t (t.children id) below)
      (hbehind : PreOrder t row behind) : PreOrder t (id :: row) (id :: (below ++ behind))

theorem Threads.preOrder {parent prev : Option NodeId} (h : t.Threads parent prev f)
    (hsize : f.order.length ≤ t.size) : t.PreOrder f.roots f.order := by
  induction f generalizing parent prev with
  | nil => exact .nil
  | cons id below behind ihBelow ihBehind =>
      obtain ⟨hid, hbelow, hbehind⟩ := h
      simp only [Forest.order, List.length_cons, List.length_append] at hsize
      have hchildren := (children_of_threads hid rfl hbelow (by omega)).2
      refine .cons ?_ (ihBehind hbehind (by omega))
      rw [hchildren]
      exact ihBelow hbelow (by omega)

/-- **The chronological order is the recursive pre-order.** -/
theorem Shape.preOrder (h : t.Shape f) : t.PreOrder [Timeline.root] t.chronological := by
  have hpre := h.threads.preOrder (Nat.le_of_eq h.length_order)
  obtain ⟨below, hf⟩ := h.root
  have hroots : f.roots = [Timeline.root] := by rw [hf]; rfl
  rwa [h.chronological_eq, ← hroots]

end Timeline

end Chronicle
