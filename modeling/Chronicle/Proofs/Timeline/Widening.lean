import Chronicle.Proofs.Timeline.Archived
import Chronicle.Proofs.Timeline.Siblings
/-!
How a timeline grows in one step.

While the step of `c` is made, new nodes are put below `c`, and in the end one may be put right behind
it.  `t.Widened c copy t'` says what has become of `t` so far, `copy` being the node behind `c` if there
is one yet: all that was there has its parent, all of it but `c` its next sibling, and what is new has a
known place.  The relation has one lemma for each kind of change: of a node (`Widened.modify`), and the
two ways to grow (`Widened.adopt`, `Widened.duplicate`).

Over several steps the parents stay, and so does what stands right behind a node whose step is over:
`Settled`.
-/

namespace Chronicle

namespace Timeline

variable {P : Type} {t t' t'' : Timeline P} {f : Forest} {c copy q : NodeId}

/-! ### One step -/

/-- The program of a node. -/
def program? (t : Timeline P) (id : NodeId) : Option P := (t.node? id).map (·.program)

theorem program?_congr {q : NodeId} (h : t'.core? q = t.core? q) : t'.program? q = t.program? q := by
  have hcore : ∀ t : Timeline P, t.program? q = (t.core? q).map (·.program) := by
    intro t
    rw [core?, Option.map_map]
    rfl
  rw [hcore, hcore, h]

theorem program?_modify (t : Timeline P) (id q : NodeId) {g : Node P → Node P}
    (hprogram : ∀ n, (g n).program = n.program) : (t.modify id g).program? q = t.program? q := by
  rw [program?, program?, node?_modify]
  split
  · rw [Option.map_map]
    congr 1
    funext n
    exact hprogram n
  · rfl

/-- One node is new. -/
theorem GrownBy.lt_of_ne {job : P} (h : GrownBy t t' job) (hlt : q.index < t'.size)
    (hq : q ≠ ⟨t.size⟩) : q.index < t.size := by
  have hindex : q.index ≠ t.size := fun hc => hq (congrArg NodeId.mk hc)
  have hsize := h.size
  omega

/-- What has nothing below it is no parent. -/
theorem Shape.parent?_ne (h : t.Shape f) (hleaf : f.under c = .nil) (q : NodeId) :
    t.parent? q ≠ some c := by
  intro hq
  obtain ⟨n, hn, -⟩ := Option.bind_eq_some_iff.mp hq
  obtain ⟨below, hf⟩ := h.root
  rcases h.threads.mem_roots h.nodup (h.mem_iff.mpr ⟨n, hn⟩) with hroot | ⟨p, -, hparent, hmem⟩
  · rw [h.threads.parent_of_mem_roots hroot] at hq
    cases hq
  · obtain rfl : p = c := Option.some.inj (hparent.symm.trans hq)
    rw [hleaf] at hmem
    cases hmem

/-- In the step of `c` the timeline `t` has become `t'`, and `copy` was put behind `c`, if
anything. -/
structure Widened (c : NodeId) (copy : Option NodeId) (t t' : Timeline P) : Prop where
  shape : ∃ f, t'.Shape f
  lt_size : c.index < t.size
  /-- The step begins without children. -/
  leaf : ∀ q, t.parent? q ≠ some c
  size_le : t.size ≤ t'.size
  parent : ∀ q, q.index < t.size → t'.parent? q = t.parent? q
  next : ∀ q, q.index < t.size → q ≠ c → t'.next? q = t.next? q
  self : t'.next? c = copy.or (t.next? c)
  /-- Whatever else is new is a child of `c`. -/
  below : ∀ q, t.size ≤ q.index → q.index < t'.size → copy ≠ some q → t'.parent? q = some c
  copied : ∀ x, copy = some x → t.size ≤ x.index ∧ x.index < t'.size ∧
    t'.parent? x = t.parent? c ∧ t'.next? x = t.next? c ∧ t'.program? x = t'.program? c

namespace Widened

variable {job : P} {child : NodeId} {behind : Option NodeId}

/-- What was there is not the next new node. -/
theorem ne_size (h : Widened c behind t t') (hq : q.index < t.size) : q ≠ ⟨t'.size⟩ := by
  rintro rfl
  exact absurd h.size_le (Nat.not_le.mpr hq)

theorem refl (h : t.Shape f) (hc : c ∈ f.order) (hleaf : f.under c = .nil) :
    Widened c none t t where
  shape := ⟨f, h⟩
  lt_size := (h.complete c).mp hc
  leaf := h.parent?_ne hleaf
  size_le := Nat.le_refl _
  parent _ _ := rfl
  next _ _ _ := rfl
  self := rfl
  below _ hle hlt := absurd hle (Nat.not_le.mpr hlt)
  copied _ hx := by cases hx

/-- A change of a node that keeps its links; once there is a copy, it has to keep the program. -/
theorem modify (h : Widened c behind t t') (id : NodeId) {g : Node P → Node P}
    (hplace : ∀ n, (g n).place = n.place)
    (hprogram : behind = none ∨ ∀ n, (g n).program = n.program) :
    Widened c behind t (t'.modify id g) := by
  obtain ⟨f, hshape⟩ := h.shape
  have hparent : ∀ q, (t'.modify id g).parent? q = t'.parent? q := fun q =>
    parent?_modify t' id fun n => congrArg Place.parent (hplace n)
  have hnext : ∀ q, (t'.modify id g).next? q = t'.next? q := fun q => next?_modify t' id q hplace
  refine ⟨⟨f, hshape.modify id hplace⟩, h.lt_size, h.leaf, ?_, ?_, ?_, ?_, ?_, ?_⟩
  · rw [size_modify]
    exact h.size_le
  · exact fun q hq => (hparent q).trans (h.parent q hq)
  · exact fun q hq hne => (hnext q).trans (h.next q hq hne)
  · exact (hnext c).trans h.self
  · intro q hle hlt hne
    rw [size_modify] at hlt
    exact (hparent q).trans (h.below q hle hlt hne)
  · intro x hx
    obtain ⟨hle, hlt, hparentx, hnextx, hprogramx⟩ := h.copied x hx
    refine ⟨hle, by rwa [size_modify], (hparent x).trans hparentx, (hnext x).trans hnextx, ?_⟩
    rcases hprogram with hnone | hprogram
    · rw [hnone] at hx
      cases hx
    · rw [program?_modify t' id x hprogram, program?_modify t' id c hprogram, hprogramx]

/-- Another child is put below `c`. -/
theorem adopt (h : Widened c none t t') (hadopt : t'.adopt c job = .ok (child, t'')) :
    Widened c none t t'' := by
  obtain ⟨f, hshape⟩ := h.shape
  obtain ⟨hgrown, hfresh, hparent⟩ := grownBy_adopt hadopt
  have hmem : c ∈ f.order := (hshape.complete c).mpr (Nat.lt_of_lt_of_le h.lt_size h.size_le)
  have hnext : ∀ q : NodeId, q.index < t.size → t''.next? q = t'.next? q := fun q hq =>
    hshape.next?_adopt hadopt (h.ne_size hq) (h.parent q hq ▸ h.leaf q)
  refine ⟨?_, h.lt_size, h.leaf, ?_, ?_, ?_, ?_, ?_, fun x hx => by cases hx⟩
  · obtain ⟨t₁, hanswer, hshape', -⟩ := hshape.adopt hmem job
    rw [hanswer, Except.ok.injEq, Prod.mk.injEq] at hadopt
    exact ⟨_, hadopt.2 ▸ hshape'⟩
  · rw [hgrown.size]
    exact Nat.le_succ_of_le h.size_le
  · exact fun q hq => (hparent q (h.ne_size hq)).trans (h.parent q hq)
  · exact fun q hq hqc => (hnext q hq).trans (h.next q hq hqc)
  · exact (hnext c h.lt_size).trans h.self
  · intro q hle hlt hcopy
    by_cases hq : q = ⟨t'.size⟩
    · rw [hq, hfresh]
    · exact (hparent q hq).trans (h.below q hle (hgrown.lt_of_ne hlt hq) hcopy)

/-- A copy of `c` is put right behind it. -/
theorem duplicate (h : Widened c none t t') (hduplicate : t'.duplicate c = .ok (copy, t'')) :
    Widened c (some copy) t t'' := by
  obtain ⟨f, hshape⟩ := h.shape
  obtain ⟨source, parent, hsource, hsourceParent, hgrown, hfresh, hparent⟩ :=
    grownBy_duplicate hduplicate
  have hnext := hshape.next?_duplicate hduplicate
  obtain rfl := (hnext c).1
  have hlt : c.index < t'.size := Nat.lt_of_lt_of_le h.lt_size h.size_le
  refine ⟨?_, h.lt_size, h.leaf, ?_, ?_, ?_, ?_, ?_, ?_⟩
  · obtain ⟨t₁, hanswer, hshape', -⟩ := hshape.duplicate hsource hsourceParent
    rw [hanswer, Except.ok.injEq, Prod.mk.injEq] at hduplicate
    exact ⟨_, hduplicate.2 ▸ hshape'⟩
  · rw [hgrown.size]
    exact Nat.le_succ_of_le h.size_le
  · exact fun q hq => (hparent q (h.ne_size hq)).trans (h.parent q hq)
  · intro q hq hqc
    rw [(hnext q).2, if_neg (h.ne_size hq), if_neg hqc, h.next q hq hqc]
  · rw [(hnext c).2, if_neg (h.ne_size h.lt_size), if_pos rfl, Option.some_or]
  · intro q hle hlt' hcopy
    have hq : q ≠ ⟨t'.size⟩ := fun hc => hcopy (congrArg some hc.symm)
    exact (hparent q hq).trans (h.below q hle (hgrown.lt_of_ne hlt' hq) (by simp))
  · rintro x hx
    obtain rfl := Option.some.inj hx
    refine ⟨h.size_le, hgrown.size ▸ Nat.lt_succ_self _, ?_, ?_, ?_⟩
    · rw [hfresh, ← hsourceParent, ← h.parent c h.lt_size, parent?, hsource, Option.bind_some]
    · rw [(hnext _).2, if_pos rfl, h.self, Option.none_or]
    · obtain ⟨m, hm, hcore⟩ := Option.map_eq_some_iff.mp hgrown.fresh
      have hprogram : m.program = source.program := by
        have hsame := congrArg Node.program hcore
        exact hsame
      rw [program?_congr (hgrown.kept c hlt), program?, program?, hm, hsource, Option.map_some,
        Option.map_some, hprogram]

end Widened

/-! ### Several steps -/

/-- All nodes of `t` have their parents, and those in `past` their next siblings. -/
structure Settled (past : List NodeId) (t t' : Timeline P) : Prop where
  size_le : t.size ≤ t'.size
  parent : ∀ q, q.index < t.size → t'.parent? q = t.parent? q
  next : ∀ q ∈ past, t'.next? q = t.next? q

variable {past : List NodeId}

theorem Settled.refl (past : List NodeId) (t : Timeline P) : t.Settled past t :=
  ⟨Nat.le_refl _, fun _ _ => rfl, fun _ _ => rfl⟩

theorem Settled.trans (h : t.Settled past t') (h' : t'.Settled past t'') : t.Settled past t'' where
  size_le := Nat.le_trans h.size_le h'.size_le
  parent q hq := (h'.parent q (Nat.lt_of_lt_of_le hq h.size_le)).trans (h.parent q hq)
  next q hq := (h'.next q hq).trans (h.next q hq)

theorem Widened.settled {behind : Option NodeId} (h : t.Widened c behind t')
    (hpast : ∀ q ∈ past, q.index < t.size ∧ q ≠ c) : t.Settled past t' where
  size_le := h.size_le
  parent := h.parent
  next q hq := h.next q (hpast q hq).1 (hpast q hq).2

end Timeline

end Chronicle
