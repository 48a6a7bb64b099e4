import Chronicle.Proofs.Edit
import Chronicle.Proofs.Timeline.Labelled
/-!
What is archived in a timeline.

A node whose step was archived holds its record (`Recorded`), and it is out of reach: the timeline
goes on being changed, but only at nodes that are not archived yet, and new nodes are only put
behind the node whose step is under way.  `t.Retains t'` says what that leaves alone.  All of an
archived node but its links is the same in `t'`; of its links the one to the parent is the same,
and so is the node that was executed right before it.  The other links are not: the copy of a step
becomes the next sibling of its original.

The relation composes, so a chain of changes needs one lemma for each kind of change: of a node
(`Recorded.modify`), and the two ways to grow (`Recorded.adopt`, `Recorded.duplicate`).
-/

namespace Chronicle

namespace Timeline

variable {P : Type} {t t' t'' : Timeline P} {f f' : Forest} {begun rest : List NodeId}
  {c id : NodeId}

/-- The step of the node was archived. -/
def IsArchived (t : Timeline P) (id : NodeId) : Prop :=
  ∃ n, t.core? id = some n ∧ n.status = .archived

/-- Where a step was archived, there is its record. -/
def Recorded (t : Timeline P) : Prop :=
  ∀ id n, t.core? id = some n → n.status = .archived → ∃ data, n.state = .archived data

/-- What is archived in `t` is in `t'` as it was, the ways up and back included. -/
structure Retains (t t' : Timeline P) : Prop where
  recorded : t'.Recorded
  core : ∀ id, t.IsArchived id → t'.core? id = t.core? id
  parent : ∀ id, t.IsArchived id → t'.parent? id = t.parent? id
  before : ∀ id, t.IsArchived id → t'.before id = t.before id

theorem isArchived_iff : t.IsArchived id ↔ ∃ n, t.node? id = some n ∧ n.status = .archived := by
  constructor
  · rintro ⟨n, hn, hstatus⟩
    obtain ⟨m, hm, rfl⟩ := Option.map_eq_some_iff.mp hn
    exact ⟨m, hm, hstatus⟩
  · rintro ⟨n, hn, hstatus⟩
    exact ⟨n.unlinked, by rw [core?, hn]; rfl, hstatus⟩

theorem IsArchived.frame (h : t.IsArchived id) (hcore : t'.core? id = t.core? id) :
    t'.IsArchived id := by
  obtain ⟨n, hn, hstatus⟩ := h
  exact ⟨n, hcore.trans hn, hstatus⟩

theorem Retains.isArchived (h : t.Retains t') (hid : t.IsArchived id) : t'.IsArchived id :=
  hid.frame (h.core id hid)

theorem Recorded.refl (h : t.Recorded) : t.Retains t :=
  ⟨h, fun _ _ => rfl, fun _ _ => rfl, fun _ _ => rfl⟩

theorem Retains.trans (h : t.Retains t') (h' : t'.Retains t'') : t.Retains t'' where
  recorded := h'.recorded
  core id hid := (h'.core id (h.isArchived hid)).trans (h.core id hid)
  parent id hid := (h'.parent id (h.isArchived hid)).trans (h.parent id hid)
  before id hid := (h'.before id (h.isArchived hid)).trans (h.before id hid)

theorem recorded_ofRoot (job : P) (initial : Snapshot) :
    (ofRoot job (.live initial)).Recorded := by
  intro id n hn hstatus
  obtain ⟨m, hm, rfl⟩ := Option.map_eq_some_iff.mp hn
  have hmem := Array.mem_of_getElem? hm
  rw [ofRoot, List.mem_toArray, List.mem_singleton] at hmem
  rw [hmem] at hstatus
  cases hstatus

/-- What is archived has begun. -/
theorem Labelled.mem_of_isArchived (h : t.Labelled begun rest) (hid : t.IsArchived id) :
    id ∈ begun := by
  obtain ⟨n, hn, hstatus⟩ := isArchived_iff.mp hid
  exact h.mem_begun hn (Or.inr (by simp [hstatus]))

theorem Labelled.exists_shape (h : t.Labelled begun rest) : ∃ f, t.Shape f := by
  obtain ⟨⟨f, hshape, -⟩, -⟩ := h
  exact ⟨f, hshape⟩

theorem Labelled.lt_size (h : t.Labelled begun rest) (hid : id ∈ begun) : id.index < t.size := by
  obtain ⟨⟨f, hshape, horder, -⟩, -⟩ := h
  exact (hshape.complete id).mp (by simp [horder, hid])

/-- A node that waits is not archived. -/
theorem Labelled.not_isArchived (h : t.Labelled begun (c :: rest)) : ¬t.IsArchived c := by
  intro hc
  have hmem := h.mem_of_isArchived hc
  obtain ⟨⟨f, hshape, horder, -⟩, -⟩ := h
  have hnodup := hshape.nodup
  rw [horder, List.nodup_append] at hnodup
  exact hnodup.2.2 c hmem c List.mem_cons_self rfl

/-! ### The way back -/

/-- Of what stands in front of a node the way back tells, and of nothing else. -/
theorem Shape.before_congr (h : t.Shape f) (h' : t'.Shape f') {front later later' : List NodeId}
    (horder : f.order = front ++ later) (horder' : f'.order = front ++ later')
    (hid : id ∈ front) : t'.before id = t.before id := by
  obtain ⟨first, last, rfl⟩ := List.append_of_mem hid
  have hsplit : f.order = first ++ id :: (last ++ later) := by simp [horder]
  have hsplit' : f'.order = first ++ id :: (last ++ later') := by simp [horder']
  rw [h.before_eq hsplit, h'.before_eq hsplit']

/-! ### Changing a node -/

/-- A node that is not archived can be changed in all but its links; if its step is archived by
that, it has to get its record. -/
theorem Recorded.modify (h : t.Recorded) (hshape : t.Shape f) (hid : ¬t.IsArchived id)
    {g : Node P → Node P} (hplace : ∀ n, (g n).place = n.place)
    (hrecord : ∀ n, n.status ≠ .archived → (g n).status = .archived →
      ∃ data, (g n).state = .archived data) : t.Retains (t.modify id g) := by
  have hne : ∀ q, t.IsArchived q → q ≠ id := fun q hq heq => hid (heq ▸ hq)
  refine ⟨fun q n hn hstatus => ?_, fun q hq => core?_modify_of_ne t g (hne q hq), fun q hq => ?_,
    fun q hq => ?_⟩
  · by_cases heq : q = id
    · subst heq
      obtain ⟨m, hm, rfl⟩ := Option.map_eq_some_iff.mp hn
      rw [node?_modify, if_pos rfl] at hm
      obtain ⟨old, hold, rfl⟩ := Option.map_eq_some_iff.mp hm
      exact hrecord old (fun hc => hid (isArchived_iff.mpr ⟨old, hold, hc⟩)) hstatus
    · rw [core?_modify_of_ne t g heq] at hn
      exact h q n hn hstatus
  · rw [parent?, parent?, node?_modify, if_neg (hne q hq)]
  · obtain ⟨n, hn, -⟩ := isArchived_iff.mp hq
    have horder : f.order = f.order ++ [] := by simp
    exact hshape.before_congr (hshape.modify id hplace) horder horder (hshape.mem_iff.mpr ⟨n, hn⟩)

/-! ### Growing -/

theorem parent?_modify (t : Timeline P) (q : NodeId) {g : Node P → Node P}
    (hg : ∀ n, (g n).parent = n.parent) : (t.modify q g).parent? id = t.parent? id := by
  rw [parent?, parent?, node?_modify]
  split
  · cases t.node? id with
    | none => rfl
    | some n => exact hg n
  · rfl

theorem parent?_modify_of_ne (t : Timeline P) {q : NodeId} (hne : id ≠ q) (g : Node P → Node P) :
    (t.modify q g).parent? id = t.parent? id := by
  rw [parent?, parent?, node?_modify, if_neg hne]

theorem parent?_linkLastChild (t : Timeline P) (parent : NodeId) {child : NodeId}
    (hne : id ≠ child) : (t.linkLastChild parent child).parent? id = t.parent? id := by
  unfold linkLastChild
  rw [parent?_modify_of_ne _ hne, parent?_modify]
  · split
    · rw [parent?_modify_of_ne _ hne, parent?_modify]
      exact fun _ => rfl
    · rw [parent?_modify]
      exact fun _ => rfl
  · exact fun _ => rfl

theorem parent?_push (t : Timeline P) (n : Node P) (hne : id ≠ ⟨t.size⟩) :
    (⟨t.nodes.push n⟩ : Timeline P).parent? id = t.parent? id := by
  rw [parent?, parent?, node?_push, if_neg hne]

/-- The change that names the parent of a node. -/
theorem parent?_modify_self (t : Timeline P) (hid : id.index < t.size) {g : Node P → Node P}
    {parent : NodeId} (hg : ∀ n, (g n).parent = some parent) :
    (t.modify id g).parent? id = some parent := by
  obtain ⟨n, hn⟩ := Option.isSome_iff_exists.mp (node?_isSome.mpr hid)
  rw [parent?, node?_modify, if_pos rfl, hn]
  exact hg n

theorem parent?_linkLastChild_self (t : Timeline P) (parent : NodeId) {child : NodeId}
    (hchild : child.index < t.size) :
    (t.linkLastChild parent child).parent? child = some parent := by
  refine parent?_modify_self _ ?_ fun _ => rfl
  rw [size_modify]
  split <;> simpa using hchild

/-- A new last child is all there is new, and the parents are the same. -/
theorem grownBy_adopt {parent child : NodeId} {job : P}
    (hadopt : t.adopt parent job = .ok (child, t')) :
    GrownBy t t' job ∧ t'.parent? ⟨t.size⟩ = some parent ∧
      ∀ id, id ≠ ⟨t.size⟩ → t'.parent? id = t.parent? id := by
  obtain ⟨n, -, hadopt⟩ := exists_of_bind_eq_ok hadopt
  obtain ⟨rfl, rfl⟩ := Prod.mk.inj (Except.ok.inj hadopt)
  refine ⟨(grownBy_push t job).linkLastChild parent ⟨t.size⟩, ?_, fun id hne => ?_⟩
  · exact parent?_linkLastChild_self _ _ (by simp [size])
  · rw [parent?_linkLastChild _ _ hne, parent?_push _ _ hne]

/-- A copy is all there is new; it has the program and the parent of its original, and the parents
are the same. -/
theorem grownBy_duplicate {copy : NodeId} (hduplicate : t.duplicate c = .ok (copy, t')) :
    ∃ source parent, t.node? c = some source ∧ source.parent = some parent ∧
      GrownBy t t' source.program ∧ t'.parent? ⟨t.size⟩ = some parent ∧
      ∀ id, id ≠ ⟨t.size⟩ → t'.parent? id = t.parent? id := by
  obtain ⟨source, hsource, hduplicate⟩ := exists_of_bind_eq_ok hduplicate
  cases hparent : source.parent with
  | none => simp [hparent] at hduplicate
  | some parent =>
      refine ⟨source, parent, node_eq_ok.mp hsource, hparent, ?_⟩
      simp only [hparent] at hduplicate
      split at hduplicate
      · next next _ =>
          obtain ⟨rfl, rfl⟩ := Prod.mk.inj (Except.ok.inj hduplicate)
          refine ⟨t.grownBy_spliced source.program parent c next, ?_, fun id hne => ?_⟩
          · rw [parent?_modify, parent?_modify]
            · exact parent?_modify_self _ (by simp [size]) fun _ => rfl
            · exact fun _ => rfl
            · exact fun _ => rfl
          · rw [parent?_modify, parent?_modify, parent?_modify_of_ne _ hne, parent?_push _ _ hne]
            · exact fun _ => rfl
            · exact fun _ => rfl
      · obtain ⟨rfl, rfl⟩ := Prod.mk.inj (Except.ok.inj hduplicate)
        refine ⟨(grownBy_push t source.program).linkLastChild parent ⟨t.size⟩, ?_, fun id hne => ?_⟩
        · exact parent?_linkLastChild_self _ _ (by simp [size])
        · rw [parent?_linkLastChild _ _ hne, parent?_push _ _ hne]

/-- A new node behind all that has begun. -/
theorem Recorded.grown {job : P} (h : t.Recorded) (hlabelled : t.Labelled begun rest)
    {rest' : List NodeId} (hlabelled' : t'.Labelled begun rest') (hgrown : GrownBy t t' job)
    (hparent : ∀ id, id ≠ ⟨t.size⟩ → t'.parent? id = t.parent? id) : t.Retains t' := by
  have hlt : ∀ q, t.IsArchived q → q.index < t.size := fun q hq =>
    hlabelled.lt_size (hlabelled.mem_of_isArchived hq)
  refine ⟨fun q n hn hstatus => ?_, fun q hq => ?_, fun q hq => ?_, fun q hq => ?_⟩
  · rcases Nat.lt_trichotomy q.index t.size with hq | hq | hq
    · rw [hgrown.kept q hq] at hn
      exact h q n hn hstatus
    · -- The new node waits for its step.
      obtain rfl : q = ⟨t.size⟩ := congrArg NodeId.mk hq
      rw [hgrown.fresh, Option.some.injEq] at hn
      rw [← hn] at hstatus
      cases hstatus
    · obtain ⟨m, hm, -⟩ := Option.map_eq_some_iff.mp hn
      have hsome := node?_isSome.mp (Option.isSome_of_eq_some hm)
      have hsize := hgrown.size
      omega
  · exact hgrown.kept q (hlt q hq)
  · exact hparent q fun heq => Nat.lt_irrefl t.size (by simpa [heq] using hlt q hq)
  · have hmem := hlabelled.mem_of_isArchived hq
    obtain ⟨⟨f, hshape, horder, -⟩, -⟩ := hlabelled
    obtain ⟨⟨f', hshape', horder', -⟩, -⟩ := hlabelled'
    exact hshape.before_congr hshape' horder horder' hmem

/-- The step under way schedules another one. -/
theorem Recorded.adopt (h : t.Recorded) (hlabelled : t.Labelled (begun ++ [c]) rest) {job : P}
    {child : NodeId} (hadopt : t.adopt c job = .ok (child, t')) : t.Retains t' := by
  obtain ⟨rest', hlabelled'⟩ := hlabelled.adopt job hadopt
  obtain ⟨hgrown, -, hparent⟩ := grownBy_adopt hadopt
  exact h.grown hlabelled hlabelled' hgrown hparent

/-- The step under way is repeated. -/
theorem Recorded.duplicate (h : t.Recorded) (hlabelled : t.Labelled (begun ++ [c]) rest)
    {copy : NodeId} (hduplicate : t.duplicate c = .ok (copy, t')) : t.Retains t' := by
  obtain ⟨rest', hlabelled'⟩ := hlabelled.duplicate hduplicate
  obtain ⟨source, parent, -, -, hgrown, -, hparent⟩ := grownBy_duplicate hduplicate
  exact h.grown hlabelled hlabelled' hgrown hparent

end Timeline

end Chronicle
