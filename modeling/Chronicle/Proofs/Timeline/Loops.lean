import Chronicle.Proofs.Timeline.Backward
/-!
The walks without their bounds.

A bounded walk answers something even when it is cut off.  Here are the same walks as loops that
go on until they are done, each as a relation between where the loop starts and what it answers:
a loop that runs forever, or that meets an id without a node, is related to nothing.  The upward
walk of `after` is `Climbs`, the downward walk of `before` is `Descends`, and `Iterates` lists
what a link leads to until there is no more.

In a timeline with a shape each of these loops ends, with the answer of the bounded walk.  The
upward walk takes a level in every round and the downward walk leaves one, so what the inductions
carry is the number of levels above or below.
-/

namespace Chronicle

namespace Timeline

variable {P : Type} {t : Timeline P} {f : Forest}

/-- Going up from a node until there is a next sibling ends with `exit`. -/
inductive Climbs (t : Timeline P) : NodeId → Option NodeId → Prop
  | aside {id next : NodeId} {n : Node P} (hn : t.node? id = some n) (hnext : n.next = some next) :
      Climbs t id (some next)
  | top {id : NodeId} {n : Node P} (hn : t.node? id = some n) (hnext : n.next = none)
      (hparent : n.parent = none) : Climbs t id none
  | up {id parent : NodeId} {exit : Option NodeId} {n : Node P} (hn : t.node? id = some n)
      (hnext : n.next = none) (hparent : n.parent = some parent) (h : Climbs t parent exit) :
      Climbs t id exit

/-- Going down the last children of a node ends at `exit`. -/
inductive Descends (t : Timeline P) : NodeId → NodeId → Prop
  | leaf {id : NodeId} {n : Node P} (hn : t.node? id = some n) (hlast : n.lastChild = none) :
      Descends t id id
  | down {id last exit : NodeId} {n : Node P} (hn : t.node? id = some n)
      (hlast : n.lastChild = some last) (h : Descends t last exit) : Descends t id exit

/-- Following a link until it leads nowhere visits `visited`. -/
inductive Iterates (link : NodeId → Option NodeId) : Option NodeId → List NodeId → Prop
  | done : Iterates link none []
  | visit {id : NodeId} {visited : List NodeId} (h : Iterates link (link id) visited) :
      Iterates link (some id) (id :: visited)

/-! ### Up and down -/

/-- From a row, going up ends wherever it ends from the node above the row. -/
theorem Threads.climbs {parent prev : Option NodeId} (level : Nat) (h : t.Threads parent prev f)
    (habove : ∀ p, parent = some p → ∀ bound, level ≤ bound → t.Climbs p (t.nextUp bound p))
    {id : NodeId} (hid : id ∈ f.order) {bound : Nat} (hbound : level + f.depth ≤ bound) :
    t.Climbs id (t.nextUp bound id) := by
  induction f generalizing parent prev level bound with
  | nil => simp [Forest.order] at hid
  | cons top below behind ihBelow ihBehind =>
      obtain ⟨htop, hbelow, hbehind⟩ := h
      obtain ⟨n, hn, hpl⟩ := Option.map_eq_some_iff.mp htop
      have hparent : n.parent = parent := congrArg Place.parent hpl
      simp only [Forest.depth] at hbound
      have hclimbs : ∀ bound, level + 1 ≤ bound → t.Climbs top (t.nextUp bound top) := by
        intro bound hbound
        obtain ⟨bound, rfl⟩ : ∃ lower, bound = lower + 1 := ⟨bound - 1, by omega⟩
        rw [nextUp, hn, Option.bind_some]
        cases hnext : n.next with
        | some next => exact .aside hn hnext
        | none =>
            cases hup : n.parent with
            | none => exact .top hn hnext hup
            | some p => exact .up hn hnext hup (habove p (hparent ▸ hup) bound (by omega))
      rcases Forest.mem_order_cons.mp hid with rfl | hid | hid
      · exact hclimbs bound (by omega)
      · refine ihBelow (level + 1) hbelow ?_ hid (by omega)
        rintro p ⟨⟩
        exact hclimbs
      · exact ihBehind level hbehind habove hid (by omega)

/-- A previous sibling is in the forest, or the one that the forest stands behind. -/
theorem Threads.prev_mem {parent prev : Option NodeId} (h : t.Threads parent prev f) {p q : NodeId}
    {pl : Place} (hp : p ∈ f.order) (hpl : t.place? p = some pl) (hq : pl.prev = some q) :
    prev = some q ∨ q ∈ f.order := by
  induction f generalizing parent prev with
  | nil => simp [Forest.order] at hp
  | cons id below behind ihBelow ihBehind =>
      obtain ⟨hid, hbelow, hbehind⟩ := h
      rw [Forest.mem_order_cons]
      rcases Forest.mem_order_cons.mp hp with rfl | hp | hp
      · rw [hid, Option.some.injEq] at hpl
        subst hpl
        exact Or.inl hq
      · have hmem := (ihBelow hbelow hp).resolve_left (by simp)
        exact Or.inr (Or.inr (Or.inl hmem))
      · rcases ihBehind hbehind hp with heq | hmem
        · exact Or.inr (Or.inl (Option.some.inj heq).symm)
        · exact Or.inr (Or.inr (Or.inr hmem))

theorem Threads.descends {parent prev : Option NodeId} (h : t.Threads parent prev f) {id : NodeId}
    (hid : id ∈ f.order) {bound : Nat} (hbound : f.depth ≤ bound) :
    t.Descends id (t.deepestLast bound id) := by
  induction f generalizing parent prev id bound with
  | nil => simp [Forest.order] at hid
  | cons top below behind ihBelow ihBehind =>
      obtain ⟨htop, hbelow, hbehind⟩ := h
      simp only [Forest.depth] at hbound
      rcases Forest.mem_order_cons.mp hid with rfl | hid | hid
      · obtain ⟨bound, rfl⟩ : ∃ lower, bound = lower + 1 := ⟨bound - 1, by omega⟩
        obtain ⟨n, hn, hpl⟩ := Option.map_eq_some_iff.mp htop
        have hlast : n.lastChild = below.last? := congrArg Place.lastChild hpl
        rw [deepestLast_eq_of_place? htop]
        cases hb : below.last? with
        | none => exact .leaf hn (hlast.trans hb)
        | some last =>
            exact .down hn (hlast.trans hb)
              (ihBelow hbelow (Forest.mem_of_last? hb) (by omega))
      · exact ihBelow hbelow hid (by omega)
      · exact ihBehind hbehind hid (by omega)

namespace Shape

theorem depth_le_size (h : t.Shape f) : f.depth ≤ t.size := h.length_order ▸ f.depth_le_length

/-- The loop of `after` ends, with the answer of `after`. -/
theorem climbs_after (h : t.Shape f) {id : NodeId} {n : Node P} (hn : t.node? id = some n)
    (hfirst : n.firstChild = none) : t.Climbs id (t.after id) := by
  have hafter : t.after id = t.nextUp t.size id := by simp [after, hn, hfirst]
  rw [hafter]
  refine h.threads.climbs 0 (by simp) (h.mem_iff.mpr ⟨n, hn⟩) ?_
  rw [Nat.zero_add]
  exact h.depth_le_size

/-- The loop of `before` ends, with the answer of `before`. -/
theorem descends_before (h : t.Shape f) {id prev : NodeId} {n : Node P}
    (hn : t.node? id = some n) (hprev : n.prev = some prev) :
    ∃ exit, t.Descends prev exit ∧ t.before id = some exit := by
  have hbefore : t.before id = some (t.deepestLast t.size prev) := by simp [before, hn, hprev]
  have hpl : t.place? id = some n.place := by rw [place?, hn]; rfl
  have hmem : prev ∈ f.order :=
    (h.threads.prev_mem (h.mem_iff.mpr ⟨n, hn⟩) hpl hprev).resolve_left (by simp)
  exact ⟨_, h.threads.descends hmem h.depth_le_size, hbefore⟩

end Shape

/-! ### Following a link -/

/-- A walk with bound enough for the whole of it is not cut off. -/
theorem Iterates.follow_eq {link : NodeId → Option NodeId} {start : Option NodeId}
    {visited : List NodeId} (h : Iterates link start visited) {bound : Nat}
    (hbound : visited.length ≤ bound) : follow link bound start = visited := by
  induction h generalizing bound with
  | done => cases bound <;> rfl
  | visit h ih =>
      cases bound with
      | zero => simp at hbound
      | succ bound => rw [follow, ih (by simpa using hbound)]

/-- A walk is no longer than its bound. -/
theorem length_follow_le (link : NodeId → Option NodeId) (bound : Nat) (start : Option NodeId) :
    (follow link bound start).length ≤ bound := by
  induction bound generalizing start with
  | zero => exact Nat.le_refl _
  | succ bound ih =>
      cases start with
      | none => exact Nat.zero_le _
      | some id => exact Nat.succ_le_succ (ih (link id))

theorem Follows.iterates {order : List NodeId} (h : t.Follows order none) :
    Iterates t.after order.head? order := by
  induction order with
  | nil => exact .done
  | cons x order ih =>
      have hx := h [] x order rfl
      rw [Option.or_none] at hx
      refine .visit (hx ▸ ih ?_)
      intro before y later heq
      exact h (x :: before) y later (by rw [heq, List.cons_append])

/-- The iterator of the chronological order ends. -/
theorem Shape.iterates_chronological (h : t.Shape f) :
    Iterates t.after (some Timeline.root) t.chronological := by
  rw [h.chronological_eq, ← h.head?_order]
  exact h.follows.iterates

end Timeline

end Chronicle
