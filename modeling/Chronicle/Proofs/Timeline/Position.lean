import Chronicle.Proofs.Timeline.Paths
/-!
Positions in a timeline.

The position of a node is read off the links: its ancestors lead up to the root, and at every
level below the root the place of a node is its one-based rank among the children of its parent.
In the tree that is the path of the node without the place of the root (`Shape.position_eq`).

A label is not found that way.  It is made from the label of the previous sibling or else of the
parent (`positionOf`), both of which come earlier in the order, and the positions of neighbours are
related as these labels are (`Shape.positionOf_eq`).
-/

namespace Chronicle

namespace Forest

/-- The nodes above `p` in the forest, the nearest one first. -/
def above (p : NodeId) : Forest → List NodeId
  | nil => []
  | cons id below behind =>
    if id = p then [] else if p ∈ below.order then below.above p ++ [id] else behind.above p

theorem length_above_lt {p : NodeId} {f : Forest} (hp : p ∈ f.order) :
    (f.above p).length < f.depth := by
  induction f with
  | nil => simp [order] at hp
  | cons id below behind ihBelow ihBehind =>
      simp only [above, depth]
      split
      · rw [List.length_nil]
        omega
      · next hid =>
          split
          · next hb =>
              have := ihBelow hb
              simp only [List.length_append, List.length_singleton]
              omega
          · next hb =>
              have := ihBehind (mem_behind hp hid hb)
              omega

/-- The path of a node in a tree, the place of the root left out. -/
def position (p : NodeId) (f : Forest) : List Nat := (f.path 1 p).tail

end Forest

namespace Timeline

variable {P : Type} {t : Timeline P} {f : Forest}

/-- The one-based place of a node among its siblings; the root has none. -/
def rank (t : Timeline P) (id : NodeId) : Nat :=
  (t.parent? id).elim 0 fun parent => (t.children parent).idxOf id + 1

/-- The ranks on the way from the child of the root that is above the node, or is the node, down to
the node. -/
def position (t : Timeline P) (id : NodeId) : List Nat :=
  (id :: t.ancestors id).dropLast.reverse.map t.rank

theorem parent?_of_place? {id : NodeId} {pl : Place} (hpl : t.place? id = some pl) :
    t.parent? id = pl.parent := by
  obtain ⟨n, hn, rfl⟩ := Option.map_eq_some_iff.mp hpl
  rw [parent?, hn]
  rfl

namespace Threads

variable {parent prev : Option NodeId}

/-- The way up from a node: what is above it in the forest, then what is above the forest. -/
theorem iterates_parent (h : t.Threads parent prev f) {up : List NodeId}
    (hup : Iterates t.parent? parent up) {p : NodeId} (hp : p ∈ f.order) :
    Iterates t.parent? (t.parent? p) (f.above p ++ up) := by
  induction f generalizing parent prev up with
  | nil => simp [Forest.order] at hp
  | cons id below behind ihBelow ihBehind =>
      obtain ⟨hid, hbelow, hbehind⟩ := h
      have hparent : t.parent? id = parent := parent?_of_place? hid
      by_cases hidp : id = p
      · subst hidp
        rw [Forest.above, if_pos rfl, hparent]
        exact hup
      · by_cases hb : p ∈ below.order
        · rw [Forest.above, if_neg hidp, if_pos hb, List.append_assoc]
          exact ihBelow hbelow (.visit (hparent ▸ hup)) hb
        · rw [Forest.above, if_neg hidp, if_neg hb]
          exact ihBehind hbehind hup (Forest.mem_behind hp hidp hb)

theorem parent_of_mem_roots (h : t.Threads parent prev f) {q : NodeId} (hq : q ∈ f.roots) :
    t.parent? q = parent := by
  induction f generalizing prev with
  | nil => simp [Forest.roots] at hq
  | cons id below behind _ ih =>
      obtain ⟨hid, -, hbehind⟩ := h
      rcases List.mem_cons.mp hq with rfl | hq
      · exact parent?_of_place? hid
      · exact ih hbehind hq

/-- A node is in the row of children of its parent, or in the first row. -/
theorem mem_roots (h : t.Threads parent prev f) (hnodup : f.order.Nodup) {q : NodeId}
    (hq : q ∈ f.order) :
    q ∈ f.roots ∨ ∃ p ∈ f.order, t.parent? q = some p ∧ q ∈ (f.under p).roots := by
  induction f generalizing parent prev with
  | nil => simp [Forest.order] at hq
  | cons id below behind ihBelow ihBehind =>
      obtain ⟨-, hbelow, hbehind⟩ := h
      obtain ⟨⟨hidBelow, hidBehind⟩, hnodupBelow, hnodupBehind, hdisjoint⟩ :=
        Forest.nodup_order_cons.mp hnodup
      rcases Forest.mem_order_cons.mp hq with rfl | hq | hq
      · exact Or.inl List.mem_cons_self
      · refine Or.inr ?_
        rcases ihBelow hbelow hnodupBelow hq with hroot | ⟨p, hp, hparent, hmem⟩
        · refine ⟨id, by simp [Forest.order], hbelow.parent_of_mem_roots hroot, ?_⟩
          rwa [Forest.under, if_pos rfl]
        · refine ⟨p, by simp [Forest.order, hp], hparent, ?_⟩
          have hne : id ≠ p := fun hc => hidBelow (hc ▸ hp)
          rwa [Forest.under, if_neg hne, if_pos hp]
      · rcases ihBehind hbehind hnodupBehind hq with hroot | ⟨p, hp, hparent, hmem⟩
        · exact Or.inl (List.mem_cons_of_mem _ hroot)
        · refine Or.inr ⟨p, by simp [Forest.order, hp], hparent, ?_⟩
          have hne : id ≠ p := fun hc => hidBehind (hc ▸ hp)
          have hnot : p ∉ below.order := fun hc => hdisjoint p hc hp
          rwa [Forest.under, if_neg hne, if_neg hnot]

/-- Given the ranks in its row, the path of a node is made of the ranks on the way down to it. -/
theorem path_eq_ranks (h : t.Threads parent prev f) (hnodup : f.order.Nodup)
    (hsize : f.order.length ≤ t.size) {k : Nat}
    (hrank : ∀ q ∈ f.roots, t.rank q = k + f.roots.idxOf q) {p : NodeId} (hp : p ∈ f.order) :
    f.path k p = (p :: f.above p).reverse.map t.rank := by
  induction f generalizing parent prev k with
  | nil => simp [Forest.order] at hp
  | cons id below behind ihBelow ihBehind =>
      obtain ⟨hid, hbelow, hbehind⟩ := h
      obtain ⟨⟨hidBelow, hidBehind⟩, hnodupBelow, hnodupBehind, -⟩ :=
        Forest.nodup_order_cons.mp hnodup
      simp only [Forest.order, List.length_cons, List.length_append] at hsize
      have hrankId : t.rank id = k := by
        simpa [Forest.roots] using hrank id List.mem_cons_self
      by_cases hidp : id = p
      · subst hidp
        rw [Forest.path_root, Forest.above, if_pos rfl, List.reverse_singleton, List.map_singleton,
          hrankId]
      · by_cases hb : p ∈ below.order
        · rw [Forest.path_below hidp hb, Forest.above, if_neg hidp, if_pos hb,
            ihBelow hbelow hnodupBelow (by omega) ?_ hb]
          · simp [hrankId]
          · intro q hq
            rw [rank, hbelow.parent_of_mem_roots hq, Option.elim_some,
              (children_of_threads hid rfl hbelow (by omega)).2, Nat.add_comm]
        · rw [Forest.path_behind hidp hb, Forest.above, if_neg hidp, if_neg hb]
          refine ihBehind hbehind hnodupBehind (by omega) ?_ (Forest.mem_behind hp hidp hb)
          intro q hq
          have hne : id ≠ q := fun hc => hidBehind (hc ▸ Forest.mem_order_of_mem_roots hq)
          rw [hrank q (List.mem_cons_of_mem _ hq), Forest.roots, List.idxOf_cons_ne _ hne]
          omega

/-- A previous sibling is at the place in front. -/
theorem path_prev (h : t.Threads parent prev f) (hnodup : f.order.Nodup) {k : Nat} {p q : NodeId}
    {pl : Place} (hp : p ∈ f.order) (hpl : t.place? p = some pl) (hq : pl.prev = some q) :
    (prev = some q ∧ f.first? = some p) ∨
      q ∈ f.order ∧ ∃ front place, f.path k q = front ++ [place] ∧
        f.path k p = front ++ [place + 1] := by
  induction f generalizing parent prev k with
  | nil => simp [Forest.order] at hp
  | cons id below behind ihBelow ihBehind =>
      obtain ⟨hid, hbelow, hbehind⟩ := h
      obtain ⟨-, hnodupBelow, hnodupBehind, -⟩ := Forest.nodup_order_cons.mp hnodup
      obtain ⟨hpathBelow, hpathBehind⟩ := Forest.path_of_mem (k := k) hnodup
      rcases Forest.mem_order_cons.mp hp with rfl | hp | hp
      · rw [hid, Option.some.injEq] at hpl
        subst hpl
        exact Or.inl ⟨hq, rfl⟩
      · refine Or.inr ?_
        obtain ⟨hmem, front, place, hpathq, hpathp⟩ :=
          (ihBelow hbelow hnodupBelow (k := 1) hp).resolve_left (by simp)
        refine ⟨by simp [Forest.order, hmem], k :: front, place, ?_, ?_⟩
        · rw [hpathBelow q hmem, hpathq, List.cons_append]
        · rw [hpathBelow p hp, hpathp, List.cons_append]
      · refine Or.inr ?_
        rcases ihBehind hbehind hnodupBehind (k := k + 1) hp with ⟨heq, hfirst⟩ | hinner
        · obtain rfl : id = q := Option.some.inj heq
          refine ⟨by simp [Forest.order], [], k, Forest.path_root, ?_⟩
          rw [hpathBehind p hp]
          cases behind with
          | nil => simp [Forest.order] at hp
          | cons next below' behind' =>
              obtain rfl : next = p := Option.some.inj hfirst
              exact Forest.path_root
        · obtain ⟨hmem, front, place, hpathq, hpathp⟩ := hinner
          refine ⟨by simp [Forest.order, hmem], front, place, ?_, ?_⟩
          · rw [hpathBehind q hmem, hpathq]
          · rw [hpathBehind p hp, hpathp]

/-- A node without a previous sibling is the first one below its parent. -/
theorem path_parent (h : t.Threads parent prev f) (hnodup : f.order.Nodup) {k : Nat} {p : NodeId}
    {pl : Place} (hp : p ∈ f.order) (hpl : t.place? p = some pl) (hnone : pl.prev = none) :
    (prev = none ∧ f.first? = some p) ∨
      ∃ q ∈ f.order, pl.parent = some q ∧ f.path k p = f.path k q ++ [1] := by
  induction f generalizing parent prev k with
  | nil => simp [Forest.order] at hp
  | cons id below behind ihBelow ihBehind =>
      obtain ⟨hid, hbelow, hbehind⟩ := h
      obtain ⟨-, hnodupBelow, hnodupBehind, -⟩ := Forest.nodup_order_cons.mp hnodup
      obtain ⟨hpathBelow, hpathBehind⟩ := Forest.path_of_mem (k := k) hnodup
      rcases Forest.mem_order_cons.mp hp with rfl | hp | hp
      · rw [hid, Option.some.injEq] at hpl
        subst hpl
        exact Or.inl ⟨hnone, rfl⟩
      · refine Or.inr ?_
        rcases ihBelow hbelow hnodupBelow (k := 1) hp with ⟨-, hfirst⟩ | hinner
        · refine ⟨id, by simp [Forest.order], ?_, ?_⟩
          · cases below with
            | nil => simp [Forest.order] at hp
            | cons first below' behind' =>
                obtain rfl : first = p := Option.some.inj hfirst
                rw [hbelow.1, Option.some.injEq] at hpl
                rw [← hpl]
          · rw [hpathBelow p hp, Forest.path_root]
            cases below with
            | nil => simp [Forest.order] at hp
            | cons first below' behind' =>
                obtain rfl : first = p := Option.some.inj hfirst
                rw [Forest.path_root]
                rfl
        · obtain ⟨q, hmem, hparent, hpath⟩ := hinner
          refine ⟨q, by simp [Forest.order, hmem], hparent, ?_⟩
          rw [hpathBelow p hp, hpathBelow q hmem, hpath, List.cons_append]
      · refine Or.inr ?_
        obtain ⟨q, hmem, hparent, hpath⟩ :=
          (ihBehind hbehind hnodupBehind (k := k + 1) hp).resolve_left (by simp)
        refine ⟨q, by simp [Forest.order, hmem], hparent, ?_⟩
        rw [hpathBehind p hp, hpathBehind q hmem, hpath]

end Threads

namespace Shape

/-- The ancestors of a node are what is above it in the tree, and the way up to them ends. -/
theorem ancestors_eq (h : t.Shape f) {p : NodeId} (hp : p ∈ f.order) :
    Iterates t.parent? (t.parent? p) (t.ancestors p) ∧ t.ancestors p = f.above p := by
  have hiterates := h.threads.iterates_parent .done hp
  rw [List.append_nil] at hiterates
  have hbound := Nat.lt_of_lt_of_le (Forest.length_above_lt hp) h.depth_le_size
  have hancestors : t.ancestors p = f.above p := hiterates.follow_eq (Nat.le_of_lt hbound)
  exact ⟨hancestors ▸ hiterates, hancestors⟩

/-- Below the root, a path without the place of the root is a path from the first row on. -/
theorem exists_below (h : t.Shape f) :
    ∃ below, f = .cons Timeline.root below .nil ∧ t.Threads (some Timeline.root) none below ∧
      Timeline.root ∉ below.order ∧ below.order.Nodup ∧
      f.position Timeline.root = [] ∧ ∀ p ∈ below.order, f.position p = below.path 1 p := by
  obtain ⟨below, rfl⟩ := h.root
  obtain ⟨⟨hroot, -⟩, hnodup, -⟩ := Forest.nodup_order_cons.mp h.nodup
  refine ⟨below, rfl, h.threads.2.1, hroot, hnodup, ?_, fun p hp => ?_⟩
  · rw [Forest.position, Forest.path_root]
    rfl
  · have hne : Timeline.root ≠ p := fun hc => hroot (hc ▸ hp)
    rw [Forest.position, Forest.path_below hne hp]
    rfl

/-- **The position of a node is its path in the tree.** -/
theorem position_eq (h : t.Shape f) {p : NodeId} (hp : p ∈ f.order) :
    t.position p = f.position p := by
  rw [position, (h.ancestors_eq hp).2]
  have hlength := h.length_order
  obtain ⟨below, rfl, hthreads, hroot, hnodup, hpositionRoot, hposition⟩ := h.exists_below
  by_cases hp' : Timeline.root = p
  · subst hp'
    rw [hpositionRoot, Forest.above, if_pos rfl]
    rfl
  · have hb : p ∈ below.order := by simpa [Forest.order, Ne.symm hp'] using hp
    rw [hposition p hb, Forest.above, if_neg hp', if_pos hb]
    have hsize : below.order.length ≤ t.size := by
      rw [← hlength]
      simp [Forest.order]
    rw [hthreads.path_eq_ranks hnodup hsize ?_ hb, ← List.cons_append, List.dropLast_concat]
    intro q hq
    have hroots : t.children Timeline.root = below.roots :=
      (children_of_threads h.threads.1 rfl hthreads hsize).2
    rw [rank, hthreads.parent_of_mem_roots hq, Option.elim_some, hroots, Nat.add_comm]

/-- Every node but the root is in the row of children of its parent. -/
theorem exists_parent?_mem (h : t.Shape f) {p : NodeId} (hp : p ∈ f.order)
    (hroot : p ≠ Timeline.root) :
    ∃ q ∈ f.order, t.parent? p = some q ∧ p ∈ (f.under q).roots := by
  rcases h.threads.mem_roots h.nodup hp with hfirst | hbelow
  · obtain ⟨below, rfl⟩ := h.root
    exact absurd (by simpa [Forest.roots] using hfirst) hroot
  · exact hbelow

/-- The position of a node below the root ends with its rank, which is no greater than the number of
its siblings. -/
theorem position_eq_snoc (h : t.Shape f) {p : NodeId} (hp : p ∈ f.order)
    (hroot : p ≠ Timeline.root) :
    (∃ lead, f.position p = lead ++ [t.rank p]) ∧
      ∃ parent, t.parent? p = some parent ∧ t.rank p ≤ (t.children parent).length := by
  constructor
  · rw [← h.position_eq hp, position, (h.ancestors_eq hp).2]
    obtain ⟨below, rfl, -⟩ := h.exists_below
    have hb : p ∈ below.order := by simpa [Forest.order, hroot] using hp
    rw [Forest.above, if_neg (Ne.symm hroot), if_pos hb, ← List.cons_append, List.dropLast_concat,
      List.reverse_cons, List.map_append]
    exact ⟨_, rfl⟩
  · obtain ⟨parent, hmem, hparent, hq⟩ := h.exists_parent?_mem hp hroot
    refine ⟨parent, hparent, ?_⟩
    rw [rank, hparent, Option.elim_some, (h.children_eq hmem).2]
    exact List.idxOf_lt_length_of_mem hq

/-- Positions increase strictly along the order. -/
theorem position_increasing (h : t.Shape f) :
    f.order.Pairwise fun p q => f.position p < f.position q := by
  obtain ⟨below, rfl, -, -, hnodup, hpositionRoot, hposition⟩ := h.exists_below
  rw [Forest.order, List.pairwise_cons]
  simp only [Forest.order, List.append_nil]
  refine ⟨fun q hq => ?_, ?_⟩
  · obtain ⟨place, rest, hpath, -⟩ := Forest.exists_path_eq_cons (k := 1) hq
    rw [hpositionRoot, hposition q hq, hpath]
    exact List.nil_lt_cons ..
  · refine (Forest.path_increasing hnodup 1).imp_of_mem fun {p q} hp hq hlt => ?_
    rwa [hposition p hp, hposition q hq]

/-- A node with a lesser position comes before. -/
theorem mem_front_of_position_lt (h : t.Shape f) {front later : List NodeId} {p q : NodeId}
    (horder : f.order = front ++ p :: later) (hq : q ∈ f.order)
    (hlt : f.position q < f.position p) : q ∈ front := by
  have hincreasing := h.position_increasing
  rw [horder, List.pairwise_append, List.pairwise_cons] at hincreasing
  rw [horder] at hq
  rcases List.mem_append.mp hq with hq | hq
  · exact hq
  · rcases List.mem_cons.mp hq with rfl | hq
    · exact absurd hlt (List.lt_irrefl _)
    · exact absurd hlt (List.lt_asymm (hincreasing.2.1.1 q hq))

/-- The position of a node below the root, from the one of its previous sibling or its parent, which
comes before. -/
theorem position_neighbour (h : t.Shape f) {front later : List NodeId} {p : NodeId} {n : Node P}
    (horder : f.order = front ++ p :: later) (hn : t.node? p = some n) (hroot : p ≠ Timeline.root) :
    (∃ q ∈ front, n.prev = some q ∧ ∃ lead place, f.position q = lead ++ [place] ∧
        f.position p = lead ++ [place + 1]) ∨
      ∃ q ∈ front, n.prev = none ∧ n.parent = some q ∧ f.position p = f.position q ++ [1] := by
  have hp : p ∈ f.order := by simp [horder]
  have hpl : t.place? p = some n.place := by rw [place?, hn]; rfl
  have hbefore : ∀ {q}, q ∈ f.order → f.position q < f.position p → q ∈ front :=
    fun hq => h.mem_front_of_position_lt horder hq
  obtain ⟨below, hf, hthreads, -, hnodup, hpositionRoot, hposition⟩ := h.exists_below
  have hb : p ∈ below.order := by simpa [hf, Forest.order, hroot] using hp
  have hmem : ∀ {q}, q ∈ below.order → q ∈ f.order := fun hq => by simp [hf, Forest.order, hq]
  cases hprev : n.prev with
  | some q =>
      obtain ⟨hq, lead, place, hpathq, hpathp⟩ :=
        (hthreads.path_prev hnodup (k := 1) hb hpl hprev).resolve_left (by simp)
      rw [← hposition q hq] at hpathq
      rw [← hposition p hb] at hpathp
      refine Or.inl ⟨q, hbefore (hmem hq) ?_, rfl, lead, place, hpathq, hpathp⟩
      rw [hpathq, hpathp]
      exact List.append_left_lt (List.cons_lt_cons_iff.mpr (Or.inl (Nat.lt_succ_self place)))
  | none =>
      have hlonger : ∀ path : List Nat, path < path ++ [1] := by
        intro path
        have hlt : path ++ [] < path ++ [1] := List.append_left_lt (List.nil_lt_cons 1 [])
        rwa [List.append_nil] at hlt
      refine Or.inr ?_
      rcases hthreads.path_parent hnodup (k := 1) hb hpl hprev with ⟨-, hfirst⟩ | hinner
      · cases below with
        | nil => simp [Forest.order] at hb
        | cons first below behind =>
            obtain rfl : first = p := Option.some.inj hfirst
            have hparent : n.parent = some Timeline.root := by
              rw [hthreads.1, Option.some.injEq] at hpl
              exact (congrArg Place.parent hpl).symm
            have hpath : f.position first = f.position Timeline.root ++ [1] := by
              rw [hposition first hb, hpositionRoot, Forest.path_root]
              rfl
            refine ⟨Timeline.root, hbefore (by simp [hf, Forest.order]) ?_, rfl, hparent, hpath⟩
            rw [hpath]
            exact hlonger _
      · obtain ⟨q, hq, hparent, hpath⟩ := hinner
        rw [← hposition q hq, ← hposition p hb] at hpath
        refine ⟨q, hbefore (hmem hq) ?_, rfl, hparent, hpath⟩
        rw [hpath]
        exact hlonger _

end Shape

end Timeline

end Chronicle
