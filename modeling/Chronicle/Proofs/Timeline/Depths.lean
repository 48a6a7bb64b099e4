import Chronicle.Proofs.Timeline.Archived
import Mathlib.Data.List.Chain
/-!
Depths along the chronological order.

A node that comes next in pre-order is either the first one below the node before it, or it comes
behind one of those above it.  Which of them that is, its depth tells.  So the positions of all
nodes can be told from their depths, taken in the chronological order (`Shape.positions_chain`,
`eq_of_onward`).

The depths themselves can be told from the programs if every program is at home on one level:
`Graded level t` says that the program of each node has a level, and one greater than the program of
its parent.  A change of a node keeps that, a copy does, and so does a child that goes with its
parent.
-/

namespace Chronicle

namespace Forest

/-! ### From one path to the next -/

/-- The path that comes next in pre-order, from the one before it and its own length. -/
def onward (path : List Nat) (length : Nat) : List Nat :=
  path.take (length - 1) ++ [path.getD (length - 1) 0 + 1]

/-- Further down nothing changes. -/
theorem onward_cons (k : Nat) (path : List Nat) {length : Nat} (hlength : length ≠ 0) :
    onward (k :: path) (length + 1) = k :: onward path length := by
  obtain ⟨above, rfl⟩ := Nat.exists_eq_succ_of_ne_zero hlength
  simp [onward]

theorem path_first {f : Forest} {p : NodeId} (h : f.order.head? = some p) (k : Nat) :
    f.path k p = [k] := by
  cases f with
  | nil => cases h
  | cons id below behind =>
      obtain rfl : id = p := Option.some.inj h
      exact path_root

/-- **Each path in pre-order can be told from the one before it.** -/
theorem path_chain {f : Forest} (hnodup : f.order.Nodup) (k : Nat) :
    f.order.IsChain fun p q => f.path k q = onward (f.path k p) (f.path k q).length := by
  induction f generalizing k with
  | nil => exact .nil
  | cons id below behind ihBelow ihBehind =>
      obtain ⟨-, hnodupBelow, hnodupBehind, -⟩ := nodup_order_cons.mp hnodup
      obtain ⟨hbelow, hbehind⟩ := path_of_mem (k := k) hnodup
      -- Behind the node, and behind all that is below it, comes the next node of its row.
      have hnext : ∀ q ∈ behind.order.head?, ∀ rest,
          (cons id below behind).path k q
            = onward (k :: rest) ((cons id below behind).path k q).length := by
        intro q hq rest
        rw [hbehind q (List.mem_of_head? hq), path_first hq]
        rfl
      refine .cons (List.isChain_append.mpr ⟨?_, ?_, fun p hp q hq => ?_⟩) fun q hq => ?_
      · refine (ihBelow hnodupBelow 1).imp_of_mem_imp fun p q hp hq hpath => ?_
        obtain ⟨place, rest, hcons, -⟩ := exists_path_eq_cons (k := 1) hq
        rw [hbelow p hp, hbelow q hq, List.length_cons, onward_cons k _ (by simp [hcons]), ← hpath]
      · refine (ihBehind hnodupBehind (k + 1)).imp_of_mem_imp fun p q hp hq hpath => ?_
        rw [hbehind p hp, hbehind q hq, ← hpath]
      · rw [hbelow p (List.mem_of_getLast? hp)]
        exact hnext q hq _
      · rw [path_root]
        rw [List.head?_append] at hq
        cases hhead : below.order.head? with
        | some first =>
            obtain rfl : first = q := by simpa [hhead] using hq
            rw [hbelow first (List.mem_of_head? hhead), path_first hhead]
            rfl
        | none => exact hnext q (by simpa [hhead] using hq) []

/-- The lengths of the paths and the first of them say what all of them are. -/
theorem eq_of_onward {paths paths' : List (List Nat)}
    (h : paths.IsChain fun path next => next = onward path next.length)
    (h' : paths'.IsChain fun path next => next = onward path next.length)
    (hhead : paths.head? = paths'.head?)
    (hlengths : paths.map List.length = paths'.map List.length) : paths = paths' := by
  induction paths generalizing paths' with
  | nil =>
      cases paths' with
      | nil => rfl
      | cons first' rest' => cases hhead
  | cons first rest ih =>
      cases paths' with
      | nil => cases hhead
      | cons first' rest' =>
          obtain rfl : first = first' := Option.some.inj hhead
          obtain ⟨-, hrest⟩ := List.cons.inj hlengths
          refine congrArg (first :: ·) (ih (List.isChain_of_isChain_cons h)
            (List.isChain_of_isChain_cons h') ?_ hrest)
          cases rest with
          | nil =>
              cases rest' with
              | nil => rfl
              | cons next' more' => cases hrest
          | cons next more =>
              cases rest' with
              | nil => cases hrest
              | cons next' more' =>
                  obtain ⟨hnext, -⟩ := List.isChain_cons_cons.mp h
                  obtain ⟨hnext', -⟩ := List.isChain_cons_cons.mp h'
                  obtain ⟨hlength, -⟩ := List.cons.inj hrest
                  rw [List.head?_cons, List.head?_cons, hnext, hnext', hlength]

end Forest

namespace Timeline

variable {P : Type} {t t' : Timeline P} {f : Forest} {id : NodeId} {level : P → Option Nat}

theorem length_position (t : Timeline P) (id : NodeId) : (t.position id).length = t.depth id := by
  simp [position, depth]

/-- **Each position in the chronological order can be told from the one before it**, and the first
is that of the root. -/
theorem Shape.positions_chain (h : t.Shape f) :
    ((t.chronological.map t.position).IsChain fun path next =>
      next = Forest.onward path next.length) ∧
    (t.chronological.map t.position).head? = some [] := by
  rw [h.chronological_eq]
  have hposition : ∀ p ∈ f.order, t.position p = f.position p := fun p hp => h.position_eq hp
  obtain ⟨below, rfl, -, -, hnodup, hroot, hbelow⟩ := h.exists_below
  have hpath : ∀ p ∈ below.order, t.position p = below.path 1 p := fun p hp =>
    (hposition p (by simp [Forest.order, hp])).trans (hbelow p hp)
  have hrootPath : t.position Timeline.root = [] :=
    (hposition Timeline.root (by simp [Forest.order])).trans hroot
  have horder : (Forest.cons Timeline.root below .nil).order = Timeline.root :: below.order := by
    simp [Forest.order]
  rw [horder, List.map_cons, hrootPath, List.head?_cons]
  refine ⟨.cons ?_ fun path hpathHead => ?_, rfl⟩
  · rw [List.isChain_map]
    refine (Forest.path_chain hnodup 1).imp_of_mem_imp fun p q hp hq hnext => ?_
    rw [hpath p hp, hpath q hq, ← hnext]
  · rw [List.head?_map] at hpathHead
    obtain ⟨q, hq, rfl⟩ := Option.map_eq_some_iff.mp hpathHead
    rw [hpath q (List.mem_of_head? hq), Forest.path_first hq]
    rfl

/-! ### Programs that are at home on one level -/

/-- The level of the program of a node. -/
def grade? (level : P → Option Nat) (t : Timeline P) (id : NodeId) : Option Nat :=
  (t.node? id).bind fun n => level n.program

/-- Each program is at home on a level, one greater than that of the program of its parent. -/
structure Graded (level : P → Option Nat) (t : Timeline P) : Prop where
  top : ∀ {id n}, t.node? id = some n → t.parent? id = none → level n.program = some 0
  below : ∀ {id n parent}, t.node? id = some n → t.parent? id = some parent →
    ∃ k, t.grade? level parent = some k ∧ level n.program = some (k + 1)

theorem grade?_of_node? {n : Node P} (hn : t.node? id = some n) :
    t.grade? level id = level n.program := by
  rw [grade?, hn, Option.bind_some]

theorem grade?_eq_core? (level : P → Option Nat) (t : Timeline P) (id : NodeId) :
    t.grade? level id = (t.core? id).bind fun n => level n.program := by
  rw [grade?, core?, Option.bind_map]
  rfl

theorem grade?_modify (t : Timeline P) (id q : NodeId) {g : Node P → Node P}
    (hprogram : ∀ n, (g n).program = n.program) :
    (t.modify id g).grade? level q = t.grade? level q := by
  rw [grade?, grade?, node?_modify]
  split
  · rw [Option.bind_map]
    exact congrArg (t.node? q).bind (funext fun n => congrArg level (hprogram n))
  · rfl

/-- The nodes that were there keep their levels. -/
theorem GrownBy.grade?_eq {job : P} {l : Nat} (h : GrownBy t t' job)
    (hl : t.grade? level id = some l) : t'.grade? level id = some l := by
  obtain ⟨n, hn, -⟩ := Option.bind_eq_some_iff.mp hl
  rw [grade?_eq_core?, h.kept id (node?_isSome.mp (by simp [hn])), ← grade?_eq_core?, hl]

theorem graded_ofRoot (job : P) (initial : SnapshotState) (hlevel : level job = some 0) :
    (ofRoot job initial).Graded level := by
  have hroot : ∀ {id n}, (ofRoot job initial).node? id = some n →
      level n.program = some 0 ∧ (ofRoot job initial).parent? id = none := by
    intro id n hn
    have hmem := Array.mem_of_getElem? hn
    rw [ofRoot, List.mem_toArray, List.mem_singleton] at hmem
    subst hmem
    refine ⟨hlevel, ?_⟩
    rw [parent?, hn]
    rfl
  exact ⟨fun hn _ => (hroot hn).1, fun hn hparent => by simp [(hroot hn).2] at hparent⟩

namespace Graded

theorem exists_grade (h : t.Graded level) {n : Node P} (hn : t.node? id = some n) :
    ∃ k, level n.program = some k := by
  cases hparent : t.parent? id with
  | none => exact ⟨0, h.top hn hparent⟩
  | some parent =>
      obtain ⟨k, -, hk⟩ := h.below hn hparent
      exact ⟨k + 1, hk⟩

/-- A change of a node that keeps its program and its links. -/
theorem modify (h : t.Graded level) (id : NodeId) {g : Node P → Node P}
    (hplace : ∀ n, (g n).place = n.place) (hprogram : ∀ n, (g n).program = n.program) :
    (t.modify id g).Graded level := by
  have hparent : ∀ q, (t.modify id g).parent? q = t.parent? q := fun q =>
    parent?_modify t id fun n => congrArg Place.parent (hplace n)
  have hnode : ∀ {q n}, (t.modify id g).node? q = some n →
      ∃ old, t.node? q = some old ∧ n.program = old.program := by
    intro q n hn
    rw [node?_modify] at hn
    split at hn
    · obtain ⟨old, hold, rfl⟩ := Option.map_eq_some_iff.mp hn
      exact ⟨old, hold, hprogram old⟩
    · exact ⟨n, hn, rfl⟩
  constructor
  · intro q n hn hnone
    obtain ⟨old, hold, heq⟩ := hnode hn
    rw [heq]
    exact h.top hold (hparent q ▸ hnone)
  · intro q n parent hn hsome
    obtain ⟨old, hold, heq⟩ := hnode hn
    rw [heq, grade?_modify t id parent hprogram]
    exact h.below hold (hparent q ▸ hsome)

/-- A new node whose level is one greater than that of its parent. -/
theorem grown (h : t.Graded level) {job : P} {parent : NodeId} {k : Nat} (hgrown : GrownBy t t' job)
    (hfresh : t'.parent? ⟨t.size⟩ = some parent)
    (hparent : ∀ id, id ≠ ⟨t.size⟩ → t'.parent? id = t.parent? id)
    (hgrade : t.grade? level parent = some k) (hlevel : level job = some (k + 1)) :
    t'.Graded level := by
  -- All but the new node were there before, with the same program.
  have hold : ∀ {q n}, q ≠ ⟨t.size⟩ → t'.node? q = some n →
      ∃ old, t.node? q = some old ∧ n.program = old.program := by
    intro q n hne hn
    have hlt := node?_isSome.mp (Option.isSome_of_eq_some hn)
    have hsize := hgrown.size
    have hindex : q.index ≠ t.size := fun hc => hne (congrArg NodeId.mk hc)
    have hcore := hgrown.kept q (by omega)
    rw [core?, core?, hn] at hcore
    obtain ⟨old, hold, heq⟩ := Option.map_eq_some_iff.mp hcore.symm
    exact ⟨old, hold, (congrArg Node.program heq).symm⟩
  constructor
  · intro q n hn hnone
    by_cases hq : q = ⟨t.size⟩
    · rw [hq, hfresh] at hnone
      cases hnone
    · obtain ⟨old, hold, heq⟩ := hold hq hn
      rw [heq]
      exact h.top hold (hparent q hq ▸ hnone)
  · intro q n above hn hsome
    by_cases hq : q = ⟨t.size⟩
    · subst hq
      rw [hfresh] at hsome
      obtain rfl := Option.some.inj hsome
      have hgradeNew : t'.grade? level ⟨t.size⟩ = level job := by
        rw [grade?_eq_core?, hgrown.fresh]
        rfl
      exact ⟨k, hgrown.grade?_eq hgrade,
        (grade?_of_node? hn).symm.trans (hgradeNew.trans hlevel)⟩
    · obtain ⟨old, hold, heq⟩ := hold hq hn
      obtain ⟨k', hk', hlevel'⟩ := h.below hold (hparent q hq ▸ hsome)
      exact ⟨k', hgrown.grade?_eq hk', heq ▸ hlevel'⟩

/-- A child that goes with its parent. -/
theorem adopt (h : t.Graded level) {job : P} {parent child : NodeId} {k : Nat}
    (hadopt : t.adopt parent job = .ok (child, t')) (hgrade : t.grade? level parent = some k)
    (hlevel : level job = some (k + 1)) : t'.Graded level := by
  obtain ⟨hgrown, hfresh, hparent⟩ := grownBy_adopt hadopt
  exact h.grown hgrown hfresh hparent hgrade hlevel

/-- A copy stands where its original stands. -/
theorem duplicate (h : t.Graded level) {copy : NodeId}
    (hduplicate : t.duplicate id = .ok (copy, t')) : t'.Graded level := by
  obtain ⟨source, parent, hsource, habove, hgrown, hfresh, hparent⟩ := grownBy_duplicate hduplicate
  obtain ⟨k, hk, hlevel⟩ := h.below hsource (by rw [parent?, hsource]; exact habove)
  exact h.grown hgrown hfresh hparent hk hlevel

/-- **The level of a program is the depth of its node.** -/
theorem depth_eq (h : t.Graded level) (hshape : t.Shape f) {n : Node P}
    (hn : t.node? id = some n) : level n.program = some (t.depth id) := by
  have hiterates := (hshape.ancestors_eq (hshape.mem_iff.mpr ⟨n, hn⟩)).1
  rw [depth]
  generalize t.ancestors id = up at hiterates
  induction up generalizing id n with
  | nil =>
      cases hparent : t.parent? id with
      | none => exact h.top hn hparent
      | some parent =>
          rw [hparent] at hiterates
          cases hiterates
  | cons parent up ih =>
      cases hparent : t.parent? id with
      | none =>
          rw [hparent] at hiterates
          cases hiterates
      | some above =>
          rw [hparent] at hiterates
          cases hiterates with
          | visit hrest =>
              obtain ⟨k, hk, hlevel⟩ := h.below hn hparent
              obtain ⟨nParent, hnParent, hlevelParent⟩ := Option.bind_eq_some_iff.mp hk
              have hlength := Option.some.inj (hlevelParent.symm.trans (ih hnParent hrest))
              rw [hlevel, List.length_cons, hlength]

end Graded

end Timeline

end Chronicle
