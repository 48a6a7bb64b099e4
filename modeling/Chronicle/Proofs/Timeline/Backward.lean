import Chronicle.Proofs.Timeline.Order
/-!
Going back along the chronological order.

`before` goes to the previous sibling and from there down to the last node of its subtree, or else
up to the parent.  `Precedes` says what it should find, as `Follows` does for `after`: in the
pre-order the node right in front, and in front of a row what was executed last before it, its
entry.  For the row below a node that is the node; for what stands behind a tree it is the last
node of that tree, which is where the chain of last children ends (`Threads.getLast?_order`).

Both walks are then read off the same list, and so one undoes the other (`Shape.after_eq_some_iff`).
-/

namespace Chronicle

namespace Timeline

variable {P : Type} {t : Timeline P} {f : Forest}

/-- In the list, `before` leads from each node to the one in front of it, and from the first to
`entry`. -/
def Precedes (t : Timeline P) : (entry : Option NodeId) → List NodeId → Prop
  | _, [] => True
  | entry, x :: order => t.before x = entry ∧ t.Precedes (some x) order

theorem Precedes.append {entry : Option NodeId} {left right : List NodeId}
    (hleft : t.Precedes entry left) (hright : t.Precedes (left.getLast?.or entry) right) :
    t.Precedes entry (left ++ right) := by
  induction left generalizing entry with
  | nil => exact hright
  | cons x left ih =>
      refine ⟨hleft.1, ih hleft.2 ?_⟩
      rw [List.getLast?_cons, Option.some_or] at hright
      cases hlast : left.getLast? with
      | none => simpa [hlast] using hright
      | some last => simpa [hlast] using hright

theorem Precedes.before_eq {entry : Option NodeId} {order : List NodeId}
    (h : t.Precedes entry order) {front later : List NodeId} {x : NodeId}
    (horder : order = front ++ x :: later) : t.before x = front.getLast?.or entry := by
  subst horder
  induction front generalizing entry with
  | nil => exact h.1
  | cons y front ih =>
      rw [ih h.2, List.getLast?_cons, Option.some_or]
      cases front.getLast? <;> rfl

/-! ### Where the chain of last children ends -/

/-- The end of the chain of last children, one level down. -/
theorem deepestLast_eq_of_place? {id : NodeId} {pl : Place} (hpl : t.place? id = some pl)
    (bound : Nat) :
    t.deepestLast (bound + 1) id = (pl.lastChild.map (t.deepestLast bound)).getD id := by
  obtain ⟨n, hn, rfl⟩ := Option.map_eq_some_iff.mp hpl
  rw [deepestLast, hn, Option.bind_some]
  cases hlast : n.lastChild <;> simp [Node.place, hlast]

/-- The last node of a row in pre-order is the last one of the tree at the end of the row. -/
theorem Threads.getLast?_order {parent prev : Option NodeId} (h : t.Threads parent prev f)
    (bound : Nat) (hbound : f.depth ≤ bound) :
    f.order.getLast? = f.last?.map (t.deepestLast bound) := by
  induction f generalizing parent prev bound with
  | nil => rfl
  | cons id below behind ihBelow ihBehind =>
      obtain ⟨hid, hbelow, hbehind⟩ := h
      simp only [Forest.depth] at hbound
      have hlast := ihBehind hbehind bound (by omega)
      rw [Forest.order, Forest.last?_cons, List.getLast?_cons, List.getLast?_append, hlast]
      cases behind.last? with
      | some last => rfl
      | none =>
          -- Nothing stands behind the tree: one step down, and on in the row below.
          obtain ⟨bound, rfl⟩ : ∃ lower, bound = lower + 1 := ⟨bound - 1, by omega⟩
          rw [ihBelow hbelow bound (by omega)]
          simp [deepestLast_eq_of_place? hid]

/-- A threaded forest is walked back in pre-order, given the entry of its row and enough bound. -/
theorem Threads.precedes {parent prev : Option NodeId} (h : t.Threads parent prev f)
    (hdepth : f.depth ≤ t.size) :
    t.Precedes ((prev.map (t.deepestLast t.size)).or parent) f.order := by
  induction f generalizing parent prev with
  | nil => trivial
  | cons id below behind ihBelow ihBehind =>
      obtain ⟨hid, hbelow, hbehind⟩ := h
      simp only [Forest.depth] at hdepth
      obtain ⟨n, hn, hpl⟩ := Option.map_eq_some_iff.mp hid
      have hprev : n.prev = prev := congrArg Place.prev hpl
      have hparent : n.parent = parent := congrArg Place.parent hpl
      refine ⟨?_, (ihBelow hbelow (by omega)).append ?_⟩
      · rw [before, hn, Option.bind_some, hprev, hparent]
        cases prev <;> rfl
      · -- What comes last before the row behind is the last node of the tree in front of it.
        have hentry : below.order.getLast?.or (some id) = some (t.deepestLast t.size id) := by
          obtain ⟨size, hsize⟩ : ∃ lower, t.size = lower + 1 := ⟨t.size - 1, by omega⟩
          rw [hbelow.getLast?_order size (by omega), hsize,
            deepestLast_eq_of_place? hid]
          cases below.last? <;> rfl
        have hrest := ihBehind hbehind (by omega)
        simpa [hentry] using hrest

/-! ### The two walks -/

namespace Shape

/-- `before` and the pre-order of a shape agree. -/
theorem before_eq (h : t.Shape f) {front later : List NodeId} {x : NodeId}
    (horder : f.order = front ++ x :: later) : t.before x = front.getLast? := by
  have hprecedes := h.threads.precedes (h.length_order ▸ f.depth_le_length)
  rw [hprecedes.before_eq horder]
  exact Option.or_none

/-- Neither walk leads anywhere from a node that is not there. -/
theorem mem_of_walk (h : t.Shape f) {x y : NodeId}
    (hwalk : t.after x = some y ∨ t.before x = some y) : x ∈ f.order := by
  rw [h.mem_iff]
  cases hx : t.node? x with
  | some n => exact ⟨n, rfl⟩
  | none => simp [after, before, hx] at hwalk

/-- **One walk undoes the other.** -/
theorem after_eq_some_iff (h : t.Shape f) {x y : NodeId} :
    t.after x = some y ↔ t.before y = some x := by
  constructor
  · intro hafter
    obtain ⟨front, later, horder⟩ := List.append_of_mem (h.mem_of_walk (Or.inl hafter))
    rw [h.after_eq horder] at hafter
    obtain ⟨later, rfl⟩ := List.head?_eq_some_iff.mp hafter
    have hsplit : f.order = (front ++ [x]) ++ y :: later := by simp [horder]
    rw [h.before_eq hsplit, List.getLast?_concat]
  · intro hbefore
    obtain ⟨front, later, horder⟩ := List.append_of_mem (h.mem_of_walk (Or.inr hbefore))
    rw [h.before_eq horder] at hbefore
    obtain ⟨front, rfl⟩ := List.getLast?_eq_some_iff.mp hbefore
    have hsplit : f.order = front ++ x :: y :: later := by simp [horder]
    rw [h.after_eq hsplit, List.head?_cons]

/-- The chronological order starts with the root. -/
theorem head?_order (h : t.Shape f) : f.order.head? = some Timeline.root := by
  obtain ⟨below, rfl⟩ := h.root
  rfl

/-- Nothing comes before the root. -/
theorem before_root (h : t.Shape f) : t.before Timeline.root = none := by
  obtain ⟨later, horder⟩ := List.head?_eq_some_iff.mp h.head?_order
  have hsplit : f.order = [] ++ Timeline.root :: later := horder
  exact h.before_eq hsplit

/-- The last node is the only one with nothing after it. -/
theorem after_eq_none_iff (h : t.Shape f) {x : NodeId} (hx : x ∈ f.order) :
    t.after x = none ↔ f.order.getLast? = some x := by
  obtain ⟨front, later, horder⟩ := List.append_of_mem hx
  rw [h.after_eq horder, List.head?_eq_none_iff]
  constructor
  · rintro rfl
    rw [horder, List.getLast?_concat]
  · intro hlast
    cases later with
    | nil => rfl
    | cons y later =>
        -- Then `x` would stand in the order twice.
        have hnodup := h.nodup
        rw [horder, List.nodup_append, List.nodup_cons] at hnodup
        rw [horder, List.getLast?_append, List.getLast?_cons_cons,
          List.getLast?_eq_some_getLast (List.cons_ne_nil y later), Option.some_or,
          Option.some.injEq] at hlast
        exact absurd (hlast ▸ List.getLast_mem _) hnodup.2.1.1

end Shape

end Timeline

end Chronicle
