import Chronicle.Proofs.Timeline.Threads
/-!
The shape of a timeline and its chronological order.

`Shape t f` is the invariant of a timeline: `f` is one tree, the links of `t` thread it, and its
nodes are the nodes of `t`, each once.  `adopt` and `duplicate` keep it, and what they do to the
tree is said by `Forest.adopt` and `Forest.duplicate`.

The walks of a timeline carry a bound, and the shape is what makes the bound sufficient: the way
up from a node is no longer than the tree is deep, and the tree is no deeper than it has nodes.
So `after` finds the next node of the pre-order (`Shape.after_eq`), and the chronological order is
the pre-order itself (`Shape.chronological_eq`).
-/

namespace Chronicle

namespace Timeline

variable {P : Type} {t t' : Timeline P} {f : Forest}

/-- The links of `t` make its nodes the tree `f`. -/
structure Shape (t : Timeline P) (f : Forest) : Prop where
  /-- There is one tree, and its root is the root of the timeline. -/
  root : ∃ below, f = .cons Timeline.root below .nil
  threads : t.Threads none none f
  nodup : f.order.Nodup
  complete : ∀ id, id ∈ f.order ↔ id.index < t.size

namespace Shape

theorem mem_iff (h : t.Shape f) {id : NodeId} : id ∈ f.order ↔ ∃ n, t.node? id = some n := by
  rw [h.complete, ← node?_isSome, Option.isSome_iff_exists]

theorem length_order (h : t.Shape f) : f.order.length = t.size := by
  have hperm : f.order.Perm ((List.range t.size).map NodeId.mk) := by
    rw [List.perm_ext_iff_of_nodup h.nodup ?_]
    · intro id
      rw [h.complete]
      constructor
      · exact fun hid => List.mem_map.mpr ⟨id.index, List.mem_range.mpr hid, rfl⟩
      · intro hid
        obtain ⟨i, hi, rfl⟩ := List.mem_map.mp hid
        exact List.mem_range.mp hi
    · refine List.Nodup.map ?_ List.nodup_range
      intro i j hij
      exact congrArg NodeId.index hij
  rw [hperm.length_eq, List.length_map, List.length_range]

/-- No link leads to a node that is not there yet. -/
theorem size_not_mem (h : t.Shape f) : (⟨t.size⟩ : NodeId) ∉ f.order := by
  rw [h.complete]
  exact Nat.lt_irrefl _

/-- Nodes without a first child are the leaves. -/
theorem under_eq_nil (h : t.Shape f) {p : NodeId} {n : Node P} (hn : t.node? p = some n)
    (hfirst : n.firstChild = none) : f.under p = .nil := by
  have hpl : t.place? p = some n.place := by rw [place?, hn]; rfl
  have hunder := (h.threads.under (h.mem_iff.mpr ⟨n, hn⟩) hpl).1
  exact Forest.first?_eq_none.mp (hunder ▸ hfirst)

/-- Only the links and the number of nodes count. -/
theorem frame (h : t.Shape f) (hsize : t'.size = t.size) (hplace : ∀ q, t'.place? q = t.place? q) :
    t'.Shape f := by
  refine ⟨h.root, h.threads.frame fun q _ => hplace q, h.nodup, ?_⟩
  intro id
  rw [h.complete, hsize]

theorem modify (h : t.Shape f) (id : NodeId) {g : Node P → Node P}
    (hg : ∀ n, (g n).place = n.place) : (t.modify id g).Shape f :=
  h.frame (size_modify ..) fun q => place?_modify_of_place t id q g hg

end Shape

theorem shape_ofRoot (job : P) (initial : SnapshotState) :
    (ofRoot job initial).Shape (.cons Timeline.root .nil .nil) := by
  refine ⟨⟨.nil, rfl⟩, ⟨rfl, trivial, trivial⟩, by simp [Forest.order], ?_⟩
  intro h
  obtain ⟨i⟩ := h
  simp [Forest.order, Timeline.root, ofRoot, size]

/-! ### Growing -/

/-- A row gets a new last node: what `linkLastChild` needs to find, and what it leaves. -/
theorem Shape.place?_link (h : t.Shape f) {parent : NodeId} {pl : Place} (job : P)
    (hpl : t.place? parent = some pl) (q : NodeId) :
    (linkLastChild ⟨t.nodes.push (.scheduled job)⟩ parent ⟨t.size⟩).place? q =
      if q = ⟨t.size⟩ then some ⟨some parent, pl.lastChild, none, none, none⟩
      else (t.place? q).map (Place.linked parent ⟨t.size⟩ pl.lastChild q) := by
  have hmem : parent ∈ f.order := by
    rw [h.complete, ← place?_isSome, hpl]
    rfl
  have hne : parent ≠ ⟨t.size⟩ := fun hc => h.size_not_mem (hc ▸ hmem)
  have hlast := (h.threads.under hmem hpl).2
  have hlastMem : ∀ q, pl.lastChild = some q → q ∈ (f.under parent).order := fun q hq =>
    Forest.mem_of_last? (hlast ▸ hq)
  have hgrown : Timeline.place? ⟨t.nodes.push (.scheduled job)⟩ parent = some pl := by
    rw [place?_push, if_neg hne, hpl]
  rw [place?_linkLastChild _ hgrown hne
    (fun hc => h.size_not_mem (Forest.order_under_subset (hlastMem _ hc)))
    (fun hc => Forest.not_mem_under h.nodup (hlastMem _ hc)), place?_push]
  split
  · rename_i hq
    subst hq
    simp [Place.linked]
  · rfl

/-- A first child stays the first one. -/
theorem Shape.firstChild_link (h : t.Shape f) {parent : NodeId} {pl : Place} (job : P)
    (hpl : t.place? parent = some pl) {q : NodeId} (hq : q = parent → pl.lastChild ≠ none) :
    ((linkLastChild ⟨t.nodes.push (.scheduled job)⟩ parent ⟨t.size⟩).place? q).bind (·.firstChild)
      = (t.place? q).bind (·.firstChild) := by
  rw [h.place?_link job hpl]
  by_cases hnew : q = ⟨t.size⟩
  · have hnone : t.place? q = none := hnew ▸ t.place?_size
    rw [if_pos hnew, hnone]
    rfl
  · rw [if_neg hnew]
    cases t.place? q with
    | none => rfl
    | some plq =>
        simp only [Option.map_some, Option.bind_some, Place.linked, if_neg hnew]
        split
        · next hparent => exact if_neg (hq hparent)
        · split <;> rfl

/-- A tree with one more node, threaded, is the shape of the timeline with one more node. -/
theorem Shape.grown {job : P} {f' : Forest} (h : t.Shape f) (hgrown : GrownBy t t' job)
    (hroot : ∃ below, f' = .cons Timeline.root below .nil) (hthreads : t'.Threads none none f')
    (hperm : f'.order.Perm (⟨t.size⟩ :: f.order)) : t'.Shape f' := by
  refine ⟨hroot, hthreads, ?_, ?_⟩
  · rw [hperm.nodup_iff, List.nodup_cons]
    exact ⟨h.size_not_mem, h.nodup⟩
  · intro hmem
    obtain ⟨i⟩ := hmem
    rw [hperm.mem_iff, List.mem_cons, h.complete, hgrown.size]
    simp only [NodeId.mk.injEq]
    omega

/-- Adding a step below a node of the timeline adds it to the tree there. -/
theorem Shape.adopt (h : t.Shape f) {parent : NodeId} (hmem : parent ∈ f.order) (job : P) :
    ∃ t', t.adopt parent job = .ok (⟨t.size⟩, t') ∧ t'.Shape (f.adopt parent ⟨t.size⟩) ∧
      GrownBy t t' job ∧
      ∀ q, q ≠ parent → (t'.place? q).bind (·.firstChild) = (t.place? q).bind (·.firstChild) := by
  obtain ⟨n, hn⟩ := h.mem_iff.mp hmem
  have hpl : t.place? parent = some n.place := by rw [place?, hn]; rfl
  have hlink := h.place?_link job hpl
  have hgrown := (grownBy_push t job).linkLastChild parent ⟨t.size⟩
  have hne : ∀ q ∈ f.order, q ≠ ⟨t.size⟩ := fun q hq hc => h.size_not_mem (hc ▸ hq)
  obtain ⟨hfirst, hlast⟩ := h.threads.under hmem hpl
  refine ⟨_, ?_, h.grown hgrown ?_ ?_ ?_, hgrown, ?_⟩
  · simp only [Timeline.adopt, node_eq_ok.mpr hn]
    rfl
  · obtain ⟨below, rfl⟩ := h.root
    simp only [Forest.adopt]
    split
    · exact ⟨_, rfl⟩
    · split <;> exact ⟨_, rfl⟩
  · refine h.threads.adopt h.nodup hmem hpl ?_ ?_ ?_ ?_
    · rw [hlink, if_pos rfl]
    · rw [hlink, if_neg (hne _ hmem), hpl]
      simp only [Place.linked, if_neg (hne _ hmem), Option.map_some, if_pos]
      congr 2
      -- The row has a first node exactly if it has a last one.
      rw [hfirst, hlast]
      cases hu : f.under parent with
      | nil => rfl
      | cons id below behind => simp [Forest.first?, Forest.last?_cons]
    · intro q hq
      have hqMem : q ∈ (f.under parent).order := Forest.mem_of_last? (hlast ▸ hq)
      have hqne : q ≠ parent := fun hc => Forest.not_mem_under h.nodup (hc ▸ hqMem)
      have hqsize := hne q (Forest.order_under_subset hqMem)
      rw [hlink, if_neg hqsize]
      congr 1
      funext pl
      simp [Place.linked, hqsize, hqne, hq]
    · intro q hq hqne hql
      rw [hlink, if_neg (hne q hq)]
      cases t.place? q <;> simp [Place.linked, hne q hq, hqne, hql]
  · exact (Forest.perm_order_grown ⟨t.size⟩ hmem).1
  · exact fun q hq => h.firstChild_link job hpl fun hc => absurd hc hq

/-! ### Putting a copy right behind a node -/

/-- The timeline with a new node between `id` and `next`. -/
def spliced (t : Timeline P) (job : P) (parent id next : NodeId) : Timeline P :=
  ((Timeline.modify ⟨t.nodes.push (.scheduled job)⟩ ⟨t.size⟩
    ({ · with parent := some parent, prev := some id, next := some next })).modify id
    ({ · with next := some ⟨t.size⟩ })).modify next ({ · with prev := some ⟨t.size⟩ })

theorem grownBy_spliced (t : Timeline P) (job : P) (parent id next : NodeId) :
    GrownBy t (t.spliced job parent id next) job := by
  refine (((grownBy_push t _).modify _ ?_).modify _ ?_).modify _ ?_ <;> intro n <;> rfl

theorem place?_spliced (t : Timeline P) (job : P) (parent : NodeId) {id next : NodeId}
    (hid : id ≠ ⟨t.size⟩) (hnext : next ≠ ⟨t.size⟩) (hne : next ≠ id) (q : NodeId) :
    (t.spliced job parent id next).place? q =
      if q = ⟨t.size⟩ then some ⟨some parent, some id, some next, none, none⟩
      else if q = next then (t.place? q).map fun pl => { pl with prev := some ⟨t.size⟩ }
      else if q = id then (t.place? q).map fun pl => { pl with next := some ⟨t.size⟩ }
      else t.place? q := by
  rw [spliced,
    place?_modify _ next q _ (fun pl => { pl with prev := some ⟨t.size⟩ }) fun _ => rfl,
    place?_modify _ id q _ (fun pl => { pl with next := some ⟨t.size⟩ }) fun _ => rfl,
    place?_modify _ ⟨t.size⟩ q _
      (fun pl => { pl with parent := some parent, prev := some id, next := some next })
      fun _ => rfl,
    place?_push]
  by_cases hq : q = ⟨t.size⟩
  · subst hq
    simp [Ne.symm hnext, Ne.symm hid]
  · by_cases hqn : q = next
    · subst hqn
      simp [hq, hne]
    · simp [hq, hqn]

/-- A node that has a next one gets its copy between the two. -/
theorem Shape.threads_spliced (h : t.Shape f) {id parent next : NodeId} {pl : Place} (job : P)
    (hmem : id ∈ f.order) (hpl : t.place? id = some pl) (hparent : pl.parent = some parent)
    (hnext : pl.next = some next) :
    (t.spliced job parent id next).Threads none none (f.duplicate id ⟨t.size⟩) ∧
      ∀ q, ((t.spliced job parent id next).place? q).bind (·.firstChild)
        = (t.place? q).bind (·.firstChild) := by
  have hnextMem : next ∈ f.order := h.threads.next_mem hmem hpl hnext
  have hnew : ∀ q ∈ f.order, q ≠ ⟨t.size⟩ := fun q hq hc => h.size_not_mem (hc ▸ hq)
  have hne : next ≠ id := fun hc => h.threads.next_ne h.nodup hmem hpl (hc ▸ hnext)
  have hplace := t.place?_spliced job parent (hnew id hmem) (hnew next hnextMem) hne
  constructor
  · refine h.threads.duplicate h.nodup (by simp) hmem hpl ?_ ?_ ?_ ?_ ?_
    · rw [hplace, if_pos rfl, hparent, hnext]
    · rw [hplace, if_neg (hnew id hmem), if_neg (Ne.symm hne), if_pos rfl, hpl]
      rfl
    · intro q hq
      obtain rfl : next = q := Option.some.inj (hnext.symm.trans hq)
      rw [hplace, if_neg (hnew next hnextMem), if_pos rfl]
    · intro hnone
      simp [hnext] at hnone
    · intro q hq hqid hqnext _
      have hqn : q ≠ next := fun hc => hqnext (hc ▸ hnext)
      rw [hplace, if_neg (hnew q hq), if_neg hqn, if_neg hqid]
  · intro q
    rw [hplace]
    by_cases hq : q = ⟨t.size⟩
    · have hnone : t.place? q = none := hq ▸ t.place?_size
      rw [if_pos hq, hnone]
      rfl
    · rw [if_neg hq]
      cases t.place? q with
      | none => simp
      | some pl => split <;> [rfl; (split <;> rfl)]

/-- The last node of a row gets its copy as the new last one. -/
theorem Shape.threads_linked (h : t.Shape f) {id parent : NodeId} {pl above : Place} (job : P)
    (hmem : id ∈ f.order) (hpl : t.place? id = some pl) (hparent : pl.parent = some parent)
    (hnext : pl.next = none) (habove : t.place? parent = some above)
    (hlast : above.lastChild = some id) (hne : id ≠ parent) :
    (linkLastChild ⟨t.nodes.push (.scheduled job)⟩ parent ⟨t.size⟩).Threads none none
      (f.duplicate id ⟨t.size⟩) := by
  have hnew : ∀ q ∈ f.order, q ≠ ⟨t.size⟩ := fun q hq hc => h.size_not_mem (hc ▸ hq)
  have hlink := h.place?_link job habove
  rw [hlast] at hlink
  refine h.threads.duplicate h.nodup (by simp) hmem hpl ?_ ?_ ?_ ?_ ?_
  · rw [hlink, if_pos rfl, hparent, hnext]
  · rw [hlink, if_neg (hnew id hmem), hpl]
    simp [Place.linked, hnew id hmem, hne]
  · intro q hq
    simp [hnext] at hq
  · intro _ q hq hqparent
    obtain rfl : parent = q := Option.some.inj (hparent.symm.trans hqparent)
    rw [hlink, if_neg (hnew _ hq)]
    congr 1
    funext pl
    simp [Place.linked, hnew _ hq]
  · intro q hq hqid _ hqparent
    have hqp : q ≠ parent := fun hc => hqparent hnext (hc ▸ hparent)
    rw [hlink, if_neg (hnew q hq)]
    cases t.place? q <;> simp [Place.linked, hnew q hq, hqp, Ne.symm hqid]

/-- Putting a copy right behind a node that is not the root puts it there in the tree. -/
theorem Shape.duplicate (h : t.Shape f) {id : NodeId} {source : Node P}
    (hsource : t.node? id = some source) {parent : NodeId} (hparent : source.parent = some parent) :
    ∃ t', t.duplicate id = .ok (⟨t.size⟩, t') ∧ t'.Shape (f.duplicate id ⟨t.size⟩) ∧
      GrownBy t t' source.program ∧
      ∀ q, (t'.place? q).bind (·.firstChild) = (t.place? q).bind (·.firstChild) := by
  have hmem : id ∈ f.order := h.mem_iff.mpr ⟨source, hsource⟩
  have hpl : t.place? id = some source.place := by rw [place?, hsource]; rfl
  have hroot : ∃ below, f.duplicate id ⟨t.size⟩ = .cons Timeline.root below .nil := by
    obtain ⟨below, rfl⟩ := h.root
    have hid : ¬Timeline.root = id := by
      intro heq
      subst heq
      have hthreads := h.threads.1
      rw [hpl, Option.some.injEq] at hthreads
      have hnone : source.parent = none := congrArg Place.parent hthreads
      simp [hparent] at hnone
    simp only [Forest.duplicate, if_neg hid]
    split <;> exact ⟨_, rfl⟩
  have hperm := (Forest.perm_order_grown ⟨t.size⟩ hmem).2
  cases hnext : source.next with
  | some next =>
      obtain ⟨hthreads, hfirst⟩ := h.threads_spliced source.program hmem hpl hparent hnext
      have hgrown := t.grownBy_spliced source.program parent id next
      refine ⟨_, ?_, h.grown hgrown hroot hthreads hperm, hgrown, hfirst⟩
      simp only [Timeline.duplicate, node_eq_ok.mpr hsource]
      simp only [bind, Except.bind, hparent, hnext]
      rfl
  | none =>
      obtain ⟨hparentMem, hlast⟩ := h.threads.last?_under h.nodup hmem hpl hnext
        (show source.place.parent = some parent from hparent) (by simp)
      obtain ⟨above, habove⟩ := h.mem_iff.mp hparentMem
      have hplAbove : t.place? parent = some above.place := by rw [place?, habove]; rfl
      have hlastChild : above.place.lastChild = some id :=
        (h.threads.under hparentMem hplAbove).2.trans hlast
      have hne : id ≠ parent := fun hc =>
        Forest.not_mem_under h.nodup (hc ▸ Forest.mem_of_last? hlast)
      have hthreads := h.threads_linked source.program hmem hpl hparent hnext hplAbove hlastChild
        hne
      have hgrown := (grownBy_push t source.program).linkLastChild parent ⟨t.size⟩
      refine ⟨_, ?_, h.grown hgrown hroot hthreads hperm, hgrown, fun q => ?_⟩
      · simp only [Timeline.duplicate, node_eq_ok.mpr hsource]
        simp only [bind, Except.bind, hparent, hnext]
        rfl
      · exact h.firstChild_link source.program hplAbove fun _ => by simp [hlastChild]

end Timeline

end Chronicle
