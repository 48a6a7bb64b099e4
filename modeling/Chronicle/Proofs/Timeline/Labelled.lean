import Chronicle.Proofs.Timeline.LabelText
import Chronicle.Proofs.Timeline.Position
/-!
A timeline whose labels are the positions.

`Labelled t begun rest` is the invariant of the labels.  The order of the timeline is `begun`, the
nodes whose step has begun, and then `rest`.  Each node of the first part has its position for a
label; those of the second have no label yet, and their steps are scheduled.

A run does three things to it.  The first of the rest gets its label (`Labelled.assign`), which is
its position because its neighbours have theirs.  The last one that has begun gets a child or a
copy (`Labelled.adopt`, `Labelled.duplicate`), and no node that has begun moves.  Anything else
about a node may change (`Labelled.modify`).

Positions increase along the order, so labels do, and a label finds its node again.
-/

namespace Chronicle

namespace Timeline

variable {P : Type} {t t' : Timeline P} {f : Forest} {begun rest : List NodeId} {c : NodeId}

/-- What the invariant of the labels is about: the label of a node and how far its step is. -/
def mark? (t : Timeline P) (id : NodeId) : Option (Label × NodeStatus) :=
  (t.node? id).map fun n => (n.label, n.status)

theorem mark?_congr {id : NodeId} (h : t'.core? id = t.core? id) : t'.mark? id = t.mark? id := by
  have hcore : ∀ t : Timeline P, t.mark? id = (t.core? id).map fun n => (n.label, n.status) := by
    intro t
    rw [mark?, core?, Option.map_map]
    rfl
  rw [hcore, hcore, h]

theorem mark?_modify (t : Timeline P) (id q : NodeId) (g : Node P → Node P) :
    (t.modify id g).mark? q =
      if q = id then (t.node? q).map fun n => ((g n).label, (g n).status) else t.mark? q := by
  rw [mark?, node?_modify]
  split
  · rw [Option.map_map]
    rfl
  · rfl

/-- Has the step of the node begun? -/
def hasBegun (t : Timeline P) (id : NodeId) : Bool :=
  ((t.node? id).map (·.status)).getD .scheduled ≠ .scheduled

/-- In the order come the nodes `begun`, which have their positions for labels, then `rest`, whose
steps are scheduled and have no label. -/
structure Labelled (t : Timeline P) (begun rest : List NodeId) : Prop where
  layout : ∃ f, t.Shape f ∧ f.order = begun ++ rest ∧
    ∀ id ∈ begun, (t.mark? id).map (·.1) = some ⟨f.position id⟩
  untouched : ∀ id ∈ rest, t.mark? id = some (.root, .scheduled)

theorem labelled_ofRoot (job : P) (initial : SnapshotState) :
    (ofRoot job initial).Labelled [] [Timeline.root] := by
  refine ⟨⟨_, shape_ofRoot job initial, rfl, by simp⟩, fun id hid => ?_⟩
  rw [List.mem_singleton.mp hid]
  rfl

/-- Looking for a text finds a node with a label of that text, if there is one. -/
theorem findByLabel_spec (t : Timeline P) (text : String) :
    match t.findByLabel text with
    | some id => ∃ n, t.node? id = some n ∧ n.label ≠ .root ∧ n.label.text = text
    | none => ∀ id n, t.node? id = some n → n.label ≠ .root → n.label.text ≠ text := by
  unfold findByLabel
  cases hfind : t.nodes.findIdx? fun n => n.label ≠ .root ∧ n.label.text = text with
  | some i =>
      obtain ⟨hi, hnode, -⟩ := Array.findIdx?_eq_some_iff_getElem.mp hfind
      obtain ⟨hlabel, htext⟩ := of_decide_eq_true hnode
      exact ⟨_, Array.getElem?_eq_getElem hi, hlabel, htext⟩
  | none =>
      intro id n hn hlabel htext
      have hnot := Array.findIdx?_eq_none_iff.mp hfind n (Array.mem_of_getElem? hn)
      exact of_decide_eq_false hnot ⟨hlabel, htext⟩

/-! ### Labels from neighbours -/

theorem labelOf_of_mark? {id : NodeId} {label : Label}
    (h : (t.mark? id).map (·.1) = some label) : t.labelOf id = label := by
  rw [mark?, Option.map_map] at h
  exact congrArg (Option.getD · Label.root) h

/-- If all that comes before a node has its positions for labels, the links of the node give it its
position, and so do the texts of its neighbours as long as its rank fits into a machine word. -/
theorem Shape.positionOf_eq (h : t.Shape f) {front later : List NodeId} {n : Node P}
    (horder : f.order = front ++ c :: later) (hn : t.node? c = some n)
    (hlabels : ∀ q ∈ front, (t.mark? q).map (·.1) = some ⟨f.position q⟩) :
    t.positionOf n = ⟨f.position c⟩ ∧
      (t.rank c < UInt64.size → t.derivedText n = Label.text ⟨f.position c⟩) := by
  have hlabelOf : ∀ q ∈ front, t.labelOf q = ⟨f.position q⟩ := fun q hq =>
    labelOf_of_mark? (hlabels q hq)
  by_cases hroot : c = Timeline.root
  · subst hroot
    obtain ⟨below, hf, -, -, -, hpositionRoot, -⟩ := h.exists_below
    obtain ⟨m, hm, hpl⟩ := Option.map_eq_some_iff.mp (hf ▸ h.threads).1
    obtain rfl : n = m := Option.some.inj (hn.symm.trans hm)
    have hprev : n.prev = none := congrArg Place.prev hpl
    have hparent : n.parent = none := congrArg Place.parent hpl
    simp only [positionOf, derivedText, hprev, hparent, hpositionRoot]
    exact ⟨rfl, fun _ => rfl⟩
  · rcases h.position_neighbour horder hn hroot with
      ⟨q, hq, hprev, lead, place, hpositionq, hposition⟩ | ⟨q, hq, hprev, hparent, hposition⟩
    · have hfollowing : Label.following ⟨lead ++ [place]⟩ = ⟨lead ++ [place + 1]⟩ := by
        simp [Label.following]
      have hlabel : t.labelOf q = ⟨lead ++ [place]⟩ := by rw [hlabelOf q hq, hpositionq]
      refine ⟨?_, fun hrank => ?_⟩
      · rw [hposition, ← hfollowing, ← hlabel]
        simp only [positionOf, hprev, labelOf]
      · obtain ⟨⟨lead', hlast⟩, -⟩ := h.position_eq_snoc (by simp [horder]) hroot
        have hplace : place + 1 = t.rank c := by
          rw [hposition] at hlast
          simpa using (List.append_inj' hlast rfl).2
        rw [hposition, ← hfollowing, Label.text_following (hplace ▸ hrank), ← hlabel]
        simp only [derivedText, hprev]
    · have hbelow : (⟨f.position c⟩ : Label) = (t.labelOf q).below := by
        rw [hposition, hlabelOf q hq, Label.below]
      refine ⟨?_, fun _ => ?_⟩
      · rw [hbelow]
        simp only [positionOf, hprev, hparent, labelOf]
      · rw [hbelow, Label.text_below]
        simp only [derivedText, hprev, hparent]

namespace Labelled

/-! ### What a run does to the labels -/

/-- A change of a node that keeps its links and its label, and how far its step is unless it has
begun. -/
theorem modify (h : t.Labelled begun rest) (id : NodeId) {g : Node P → Node P}
    (hplace : ∀ n, (g n).place = n.place) (hlabel : ∀ n, (g n).label = n.label)
    (hstatus : id ∈ rest → ∀ n, (g n).status = n.status) :
    (t.modify id g).Labelled begun rest := by
  obtain ⟨⟨f, hshape, horder, hlabels⟩, huntouched⟩ := h
  refine ⟨⟨f, hshape.modify id hplace, horder, fun q hq => ?_⟩, fun q hq => ?_⟩
  · rw [← hlabels q hq, mark?_modify]
    split
    · simp [mark?, hlabel, Function.comp_def]
    · rfl
  · rw [← huntouched q hq, mark?_modify]
    split
    · next heq =>
        subst heq
        simp [mark?, hlabel, hstatus hq]
    · rfl

/-- The first node of the rest gets its position for a label. -/
theorem assign (h : t.Labelled begun (c :: rest)) {n : Node P} (hn : t.node? c = some n) :
    (t.modify c ({ · with label := t.positionOf n })).Labelled (begun ++ [c]) rest := by
  obtain ⟨⟨f, hshape, horder, hlabels⟩, huntouched⟩ := h
  have hnodup := hshape.nodup
  rw [horder, List.nodup_append, List.nodup_cons] at hnodup
  have hposition : t.positionOf n = ⟨f.position c⟩ := (hshape.positionOf_eq horder hn hlabels).1
  refine ⟨⟨f, hshape.modify c fun _ => rfl, by simp [horder], fun q hq => ?_⟩, fun q hq => ?_⟩
  · rw [mark?_modify]
    rcases List.mem_append.mp hq with hq | hq
    · rw [if_neg fun hc => hnodup.2.2 q hq c List.mem_cons_self hc, hlabels q hq]
    · obtain rfl := List.mem_singleton.mp hq
      simp [hn, hposition]
  · have hne : q ≠ c := fun hc => hnodup.2.1.1 (hc ▸ hq)
    rw [mark?_modify, if_neg hne, huntouched q (List.mem_cons_of_mem _ hq)]

/-- A new node that stands behind all that has begun, where it moves none of these. -/
theorem grown {job : P} {f f' : Forest} {rest' : List NodeId} (hshape : t.Shape f)
    (horder : f.order = begun ++ rest)
    (hlabels : ∀ id ∈ begun, (t.mark? id).map (·.1) = some ⟨f.position id⟩)
    (huntouched : ∀ id ∈ rest, t.mark? id = some (.root, .scheduled)) (hshape' : t'.Shape f')
    (hgrown : GrownBy t t' job) (horder' : f'.order = begun ++ rest')
    (hrest : ∀ id ∈ rest', id = ⟨t.size⟩ ∨ id ∈ rest)
    (hposition : ∀ id ∈ begun, f'.position id = f.position id) : t'.Labelled begun rest' := by
  have hkept : ∀ id ∈ f.order, t'.mark? id = t.mark? id := fun id hid =>
    mark?_congr (hgrown.kept id ((hshape.complete id).mp hid))
  refine ⟨⟨f', hshape', horder', fun id hid => ?_⟩, fun id hid => ?_⟩
  · rw [hkept id (by simp [horder, hid]), hlabels id hid, hposition id hid]
  · rcases hrest id hid with rfl | hid
    · obtain ⟨n, hn, hcore⟩ := Option.map_eq_some_iff.mp hgrown.fresh
      have hlabel : n.label = .root := congrArg Node.label hcore
      have hstatus : n.status = .scheduled := congrArg Node.status hcore
      rw [mark?, hn, Option.map_some, hlabel, hstatus]
    · rw [hkept id (by simp [horder, hid]), huntouched id hid]

/-- Of the last node that has begun, what is below it comes next. -/
theorem exists_order_split (hshape : t.Shape f) (horder : f.order = begun ++ [c] ++ rest) :
    ∃ later, rest = (f.under c).order ++ later ∧
      (f.adopt c ⟨t.size⟩).order = begun ++ [c] ++ ((f.under c).order ++ ⟨t.size⟩ :: later) ∧
      (f.duplicate c ⟨t.size⟩).order
        = begun ++ [c] ++ ((f.under c).order ++ ⟨t.size⟩ :: later) := by
  have hnodup := hshape.nodup
  have hc : c ∈ f.order := by simp [horder]
  obtain ⟨front, later, hsplit, hadopt, hduplicate⟩ := Forest.order_split hc
  rw [horder, List.append_assoc, List.singleton_append] at hnodup
  have hsame := horder.symm.trans hsplit
  rw [List.append_assoc, List.singleton_append, List.append_cons_inj_of_notMem] at hsame
  · obtain ⟨rfl, -, hrest⟩ := hsame
    refine ⟨later, hrest, ?_, ?_⟩
    · simp [hadopt]
    · simp [hduplicate]
  · exact fun hmem => (List.nodup_append.mp hnodup).2.2 c hmem c List.mem_cons_self rfl
  · exact (List.nodup_cons.mp (List.nodup_append.mp hnodup).2.1).1

/-- The step under way schedules another one. -/
theorem adopt (h : t.Labelled (begun ++ [c]) rest) (job : P) {child : NodeId}
    (hadopt : t.adopt c job = .ok (child, t')) : ∃ rest', t'.Labelled (begun ++ [c]) rest' := by
  obtain ⟨⟨f, hshape, horder, hlabels⟩, huntouched⟩ := h
  have hc : c ∈ f.order := by simp [horder]
  obtain ⟨t₁, hanswer, hshape', hgrown, -⟩ := hshape.adopt hc job
  rw [hanswer, Except.ok.injEq, Prod.mk.injEq] at hadopt
  obtain ⟨-, rfl⟩ := hadopt
  obtain ⟨later, rfl, horder', -⟩ := exists_order_split hshape horder
  refine ⟨_, grown hshape horder hlabels huntouched hshape' hgrown horder' ?_ fun id hid => ?_⟩
  · intro id hid
    simp only [List.mem_append, List.mem_cons] at hid ⊢
    tauto
  · have hmem : id ∈ f.order := by
      rw [horder]
      exact List.mem_append_left _ hid
    have hne : id ≠ ⟨t.size⟩ := fun hx => hshape.size_not_mem (hx ▸ hmem)
    rw [Forest.position, Forest.path_adopt hmem hne, Forest.position]

/-- The step under way is repeated. -/
theorem duplicate (h : t.Labelled (begun ++ [c]) rest) {copy : NodeId}
    (hduplicate : t.duplicate c = .ok (copy, t')) :
    ∃ rest', t'.Labelled (begun ++ [c]) rest' := by
  obtain ⟨⟨f, hshape, horder, hlabels⟩, huntouched⟩ := h
  have hc : c ∈ f.order := by simp [horder]
  obtain ⟨n, hn⟩ := hshape.mem_iff.mp hc
  cases hparent : n.parent with
  | none =>
      simp [Timeline.duplicate, node_eq_ok.mpr hn, hparent, bind, Except.bind] at hduplicate
  | some parent =>
      obtain ⟨t₁, hanswer, hshape', hgrown, -⟩ := hshape.duplicate hn hparent
      rw [hanswer, Except.ok.injEq, Prod.mk.injEq] at hduplicate
      obtain ⟨-, rfl⟩ := hduplicate
      obtain ⟨later, rfl, -, horder'⟩ := exists_order_split hshape horder
      refine ⟨_, grown hshape horder hlabels huntouched hshape' hgrown horder' ?_ fun id hid => ?_⟩
      · intro id hid
        simp only [List.mem_append, List.mem_cons] at hid ⊢
        tauto
      · -- The nodes up to the original are those with no greater path.
        have hincreasing := Forest.path_increasing hshape.nodup 1
        rw [horder, List.append_assoc, List.pairwise_append] at hincreasing
        have hle : ¬f.path 1 c < f.path 1 id := by
          rcases List.mem_append.mp hid with hid | hid
          · exact List.lt_asymm (hincreasing.2.2 id hid c (by simp))
          · rw [List.mem_singleton.mp hid]
            exact List.lt_irrefl _
        have hmem : id ∈ f.order := by
          rw [horder]
          exact List.mem_append_left _ hid
        have hne : id ≠ ⟨t.size⟩ := fun hx => hshape.size_not_mem (hx ▸ hmem)
        rw [Forest.position, Forest.path_duplicate hmem hne hc hle, Forest.position]

/-! ### What labels tell -/

/-- A node has begun if it has a label, or if its step is not waiting. -/
theorem mem_begun (h : t.Labelled begun rest) {id : NodeId} {n : Node P} (hn : t.node? id = some n)
    (hbegun : n.label ≠ .root ∨ n.status ≠ .scheduled) : id ∈ begun := by
  obtain ⟨⟨f, hshape, horder, -⟩, huntouched⟩ := h
  have hmem : id ∈ begun ++ rest := horder ▸ hshape.mem_iff.mpr ⟨n, hn⟩
  refine (List.mem_append.mp hmem).resolve_right fun hrest => ?_
  have hmark := huntouched id hrest
  rw [mark?, hn, Option.map_some, Option.some.injEq, Prod.mk.injEq] at hmark
  rcases hbegun with hlabel | hstatus
  · exact hlabel hmark.1
  · exact hstatus hmark.2

/-- The label of a node that has begun is its position, also in the text that its neighbours give
it. -/
theorem label_eq (h : t.Labelled begun rest) {id : NodeId} {n : Node P} (hn : t.node? id = some n)
    (hid : id ∈ begun) :
    n.label = ⟨t.position id⟩ ∧
      (t.rank id < UInt64.size → n.label.text = t.derivedText n) := by
  obtain ⟨⟨f, hshape, horder, hlabels⟩, -⟩ := h
  have hlabel : n.label = ⟨f.position id⟩ := by
    have hmark := hlabels id hid
    rw [mark?, hn] at hmark
    exact Option.some.inj hmark
  obtain ⟨front, later, rfl⟩ := List.append_of_mem hid
  have hsplit : f.order = front ++ id :: (later ++ rest) := by simp [horder]
  refine ⟨?_, fun hrank => ?_⟩
  · rw [hlabel, hshape.position_eq (by simp [horder])]
  · rw [hlabel, (hshape.positionOf_eq hsplit hn fun q hq => hlabels q (by simp [hq])).2 hrank]

/-- The rank of a node that has begun is at most the number of its siblings. -/
theorem exists_rank_le (h : t.Labelled begun rest) {id : NodeId} (hid : id ∈ begun)
    (hroot : id ≠ Timeline.root) : ∃ parent, t.rank id ≤ (t.children parent).length := by
  obtain ⟨⟨f, hshape, horder, -⟩, -⟩ := h
  obtain ⟨-, parent, -, hrank⟩ := hshape.position_eq_snoc (by simp [horder, hid]) hroot
  exact ⟨parent, hrank⟩

/-- Only nodes of the first part have a step that has begun. -/
theorem filter_hasBegun (h : t.Labelled begun rest) :
    (t.chronological.filter t.hasBegun).Sublist begun := by
  obtain ⟨⟨f, hshape, horder, -⟩, huntouched⟩ := h
  have hrest : rest.filter t.hasBegun = [] := by
    refine List.filter_eq_nil_iff.mpr fun id hid => ?_
    obtain ⟨n, hn, hmark⟩ := Option.map_eq_some_iff.mp (huntouched id hid)
    have hstatus : n.status = .scheduled := congrArg Prod.snd hmark
    simp [hasBegun, hn, hstatus]
  rw [hshape.chronological_eq, horder, List.filter_append, hrest, List.append_nil]
  exact List.filter_sublist

/-- Labels increase strictly along the nodes that have begun. -/
theorem labels_increasing (h : t.Labelled begun rest) :
    begun.Pairwise fun p q => (t.labelOf p).path < (t.labelOf q).path := by
  obtain ⟨⟨f, hshape, horder, hlabels⟩, -⟩ := h
  have hincreasing := hshape.position_increasing
  rw [horder, List.pairwise_append] at hincreasing
  refine hincreasing.1.imp_of_mem fun {p q} hp hq hlt => ?_
  rwa [labelOf_of_mark? (hlabels p hp), labelOf_of_mark? (hlabels q hq)]

/-- No label is given twice. -/
theorem eq_of_label_eq (h : t.Labelled begun rest) {p q : NodeId} (hp : p ∈ begun) (hq : q ∈ begun)
    (hlabel : t.labelOf p = t.labelOf q) : p = q := by
  have hnodup : (begun.map t.labelOf).Nodup := by
    refine List.pairwise_map.mpr (h.labels_increasing.imp fun {p q} hlt heq => ?_)
    rw [heq] at hlt
    exact List.lt_irrefl _ hlt
  exact List.inj_on_of_nodup_map hnodup hp hq hlabel

/-- Among the nodes that have begun, only the root has no label. -/
theorem label_eq_root_iff (h : t.Labelled begun rest) {id : NodeId} {n : Node P}
    (hn : t.node? id = some n) (hid : id ∈ begun) : n.label = .root ↔ id = Timeline.root := by
  have hlabel := (h.label_eq hn hid).1
  obtain ⟨⟨f, hshape, horder, -⟩, -⟩ := h
  rw [hlabel, hshape.position_eq (by simp [horder, hid])]
  constructor
  · intro hempty
    by_contra hroot
    obtain ⟨⟨lead, hlast⟩, -⟩ := hshape.position_eq_snoc (by simp [horder, hid]) hroot
    simp [hlast, Label.root] at hempty
  · rintro rfl
    obtain ⟨below, -, -, -, -, hpositionRoot, -⟩ := hshape.exists_below
    rw [hpositionRoot]
    rfl

/-- The text of a label finds its node again. -/
theorem findByLabel_eq (h : t.Labelled begun rest) {id : NodeId} {n : Node P}
    (hn : t.node? id = some n) (hid : id ∈ begun) (hroot : id ≠ Timeline.root) :
    t.findByLabel n.label.text = some id := by
  have hlabel : n.label ≠ .root := fun hc => hroot ((h.label_eq_root_iff hn hid).mp hc)
  have hspec := t.findByLabel_spec n.label.text
  cases hfind : t.findByLabel n.label.text with
  | none =>
      rw [hfind] at hspec
      exact absurd rfl (hspec id n hn hlabel)
  | some q =>
      rw [hfind] at hspec
      obtain ⟨m, hm, hlabelm, htext⟩ := hspec
      have hsame : t.labelOf q = t.labelOf id := by
        rw [labelOf, labelOf, hm, hn]
        exact Label.text_injective htext
      exact congrArg some (h.eq_of_label_eq (h.mem_begun hm (Or.inl hlabelm)) hid hsame)

/-- A text that is no label of a node finds none. -/
theorem findByLabel_eq_none (h : t.Labelled begun rest) {text : String}
    (hnone : ∀ id n, t.node? id = some n → id ≠ Timeline.root → n.label.text ≠ text) :
    t.findByLabel text = none := by
  have hspec := t.findByLabel_spec text
  cases hfind : t.findByLabel text with
  | none => rfl
  | some q =>
      rw [hfind] at hspec
      obtain ⟨m, hm, hlabelm, htext⟩ := hspec
      have hbegun := h.mem_begun hm (Or.inl hlabelm)
      have hroot : q ≠ Timeline.root := fun hc => hlabelm ((h.label_eq_root_iff hm hbegun).mpr hc)
      exact absurd htext (hnone q m hm hroot)

end Labelled

end Timeline

end Chronicle
