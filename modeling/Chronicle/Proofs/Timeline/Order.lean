import Chronicle.Proofs.Timeline.Shape
/-!
The chronological order is the pre-order of the tree.

`after` goes down to the first child, or else up until there is a next sibling.  `Follows` says
what it should find: in the pre-order the node right behind, and behind the last node of a row
whatever the way up from the row leads to, its exit.  The induction is on the forest, and what it
carries is the exit of the row with the number of levels that the way up to it takes; the row
below a node has one level more than the row of the node.  A tree has no more levels than nodes,
so the bound of the walk is never met.
-/

namespace Chronicle

namespace Timeline

variable {P : Type} {t : Timeline P} {f : Forest}

/-- In the list, `after` leads from each node to the one behind it, and from the last to `exit`. -/
def Follows (t : Timeline P) (order : List NodeId) (exit : Option NodeId) : Prop :=
  ∀ before x later, order = before ++ x :: later → t.after x = later.head?.or exit

theorem Follows.cons {t : Timeline P} {x : NodeId} {order : List NodeId} {exit : Option NodeId}
    (hx : t.after x = order.head?.or exit) (h : t.Follows order exit) :
    t.Follows (x :: order) exit := by
  intro before y later heq
  cases before with
  | nil =>
      obtain ⟨rfl, rfl⟩ := List.cons.inj heq
      exact hx
  | cons z before =>
      obtain ⟨-, heq⟩ := List.cons.inj heq
      exact h before y later heq

theorem Follows.append {t : Timeline P} {left right : List NodeId} {exit : Option NodeId}
    (hleft : t.Follows left (right.head?.or exit)) (hright : t.Follows right exit) :
    t.Follows (left ++ right) exit := by
  induction left with
  | nil => exact hright
  | cons x left ih =>
      refine Follows.cons ?_ (ih ?_)
      · show t.after x = (left ++ right).head?.or exit
        rw [hleft [] x left rfl, List.head?_append, Option.or_assoc]
      · intro before y later heq
        exact hleft (x :: before) y later (by rw [heq, List.cons_append])

/-- A threaded forest is walked in pre-order, given the exit of its row and enough bound. -/
theorem Threads.follows {parent prev exit : Option NodeId} {level : Nat}
    (h : t.Threads parent prev f)
    (hexit : ∀ bound, level ≤ bound → parent.bind (t.nextUp bound) = exit)
    (hdepth : level + f.depth ≤ t.size) : t.Follows f.order exit := by
  induction f generalizing parent prev exit level with
  | nil =>
      intro before x later heq
      simp [Forest.order] at heq
  | cons id below behind ihBelow ihBehind =>
      obtain ⟨hid, hbelow, hbehind⟩ := h
      obtain ⟨n, hn, hpl⟩ := Option.map_eq_some_iff.mp hid
      have hnext : n.next = behind.first? := congrArg Place.next hpl
      have hparent : n.parent = parent := congrArg Place.parent hpl
      have hfirst : n.firstChild = below.first? := congrArg Place.firstChild hpl
      simp only [Forest.depth] at hdepth
      -- The way up from the row below: the next tree of this row, or the exit of this row.
      have hup : ∀ bound, level + 1 ≤ bound →
          (some id).bind (t.nextUp bound) = behind.order.head?.or exit := by
        intro bound hbound
        obtain ⟨bound, rfl⟩ : ∃ lower, bound = lower + 1 := ⟨bound - 1, by omega⟩
        rw [Option.bind_some, nextUp, hn, Option.bind_some, hnext, hparent,
          ← Forest.first?_eq_head?]
        cases behind.first? with
        | none => exact hexit bound (by omega)
        | some next => rfl
      have hfollowsBelow := ihBelow hbelow hup (by omega)
      have hfollowsBehind := ihBehind hbehind hexit (by omega)
      refine Follows.cons ?_ (hfollowsBelow.append hfollowsBehind)
      rw [after, hn, Option.bind_some, hfirst, Forest.first?_eq_head?, List.head?_append]
      cases below.order.head? with
      | none =>
          rw [Option.none_or]
          exact hup t.size (by omega)
      | some child => rfl

/-- The node executed right after another one is the next in the pre-order. -/
theorem Shape.follows (h : t.Shape f) : t.Follows f.order none := by
  refine h.threads.follows (fun bound (_ : 0 ≤ bound) => rfl) ?_
  rw [Nat.zero_add, ← h.length_order]
  exact f.depth_le_length

/-- `after` and the pre-order of a shape agree. -/
theorem Shape.after_eq (h : t.Shape f) {before later : List NodeId} {x : NodeId}
    (horder : f.order = before ++ x :: later) : t.after x = later.head? := by
  rw [h.follows before x later horder, Option.or_none]

theorem Follows.follow_eq {order : List NodeId} (h : t.Follows order none) {bound : Nat}
    (hbound : order.length ≤ bound) : follow t.after bound order.head? = order := by
  induction order generalizing bound with
  | nil => cases bound <;> rfl
  | cons x order ih =>
      cases bound with
      | zero => simp at hbound
      | succ bound =>
          have hx := h [] x order rfl
          rw [Option.or_none] at hx
          rw [List.head?_cons, follow, hx, ih ?_ (by simpa using hbound)]
          intro before y later heq
          exact h (x :: before) y later (by rw [heq, List.cons_append])

/-- **The chronological order is the pre-order of the tree.** -/
theorem Shape.chronological_eq (h : t.Shape f) : t.chronological = f.order := by
  have hhead : f.order.head? = some Timeline.root := by
    obtain ⟨below, rfl⟩ := h.root
    rfl
  rw [chronological, ← hhead]
  exact h.follows.follow_eq (Nat.le_of_eq h.length_order)

end Timeline

end Chronicle
