import Chronicle.Proofs.Edit
import Chronicle.Proofs.Timeline.Rows
/-!
Every timeline that can be grown is threaded.

`Growth` is what a timeline can be asked for, and `Growth.edit` does it in place, one change
after the other, so that a request that fails could leave half of its changes behind.  It does
not: all that can fail is looked at before the first change (`Growth.apply_edit`).  A timeline is
`Grown` when it is made of its root by any requests in any order, those that fail included.

Requests succeed exactly on nodes that are there, and copies of the root are refused
(`Growth.Applies`).  Each of them keeps the shape, so every grown timeline has one, and what a
shape says about the walks holds of all of them: `Threaded` is the list, and
`Grown.threaded_and_extensible` the theorem.
-/

namespace Chronicle

namespace Timeline

variable {P : Type} {t t' : Timeline P} {f : Forest}

/-! ### Requests to grow -/

/-- What a timeline can be asked for. -/
inductive Growth (P : Type)
  | adopt (parent : NodeId) (program : P)
  | duplicate (id : NodeId)
deriving DecidableEq

/-- Store a node that no other one is linked to; answers its id. -/
def store (program : P) : Edit (Timeline P) NodeId := do
  let child : NodeId := ⟨(← get).size⟩
  modifyThe (Timeline P) fun t => ⟨t.nodes.push (.scheduled program)⟩
  return child

namespace Growth

/-- The request, answered by the timeline that there is afterwards. -/
def answer : Growth P → Timeline P → Except EngineError (NodeId × Timeline P)
  | adopt parent program, t => t.adopt parent program
  | duplicate id, t => t.duplicate id

/-- The request, performed in place. -/
def edit : Growth P → Edit (Timeline P) NodeId
  | adopt parent program => do
    let _ ← Edit.reading (·.node parent)
    let child ← store program
    modifyThe (Timeline P) (·.linkLastChild parent child)
    return child
  | duplicate id => do
    let source ← Edit.reading (·.node id)
    let some parent := source.parent | throw .duplicateRoot
    let copy ← store source.program
    match source.next with
    | some next =>
      modifyThe (Timeline P) (·.modify copy
        ({ · with parent := some parent, prev := some id, next := some next }))
      modifyThe (Timeline P) (·.modify id ({ · with next := some copy }))
      modifyThe (Timeline P) (·.modify next ({ · with prev := some copy }))
    | none => modifyThe (Timeline P) (·.linkLastChild parent copy)
    return copy

/-- The request names a node of the timeline, and asks for no copy of the root. -/
def Applies (t : Timeline P) : Growth P → Prop
  | adopt parent _ => parent.index < t.size
  | duplicate id => id.index < t.size ∧ id ≠ Timeline.root

/-- Performed in place, a request comes to what it is answered; a refused one changes nothing. -/
theorem apply_edit (g : Growth P) (t : Timeline P) :
    g.edit.apply t =
      match g.answer t with
      | .ok (id, t') => (.ok id, t')
      | .error e => (.error e, t) := by
  cases g with
  | adopt parent program =>
      simp only [edit, answer, Timeline.adopt, Edit.apply_bind, Edit.apply_reading]
      cases t.node parent <;> rfl
  | duplicate id =>
      simp only [edit, answer, Timeline.duplicate, Edit.apply_bind, Edit.apply_reading]
      cases t.node id with
      | error e => rfl
      | ok source =>
          cases hparent : source.parent with
          | none => simp [hparent, bind, Except.bind]; rfl
          | some parent =>
              cases hnext : source.next <;> simp [hparent, hnext, bind, Except.bind] <;> rfl

/-- What the request makes of the tree, the new node being `x`. -/
def grow : Growth P → NodeId → Forest → Forest
  | adopt parent _, x, f => f.adopt parent x
  | duplicate id, x, f => f.duplicate id x

/-- Why the request is refused. -/
def refusal : Growth P → EngineError
  | adopt parent _ => .unknownNode parent
  | duplicate id => if id = Timeline.root then .duplicateRoot else .unknownNode id

end Growth

namespace Shape

theorem parent_root (h : t.Shape f) : ∃ n, t.node? Timeline.root = some n ∧ n.parent = none := by
  obtain ⟨below, rfl⟩ := h.root
  obtain ⟨n, hn, hpl⟩ := Option.map_eq_some_iff.mp h.threads.1
  exact ⟨n, hn, congrArg Place.parent hpl⟩

theorem exists_parent (h : t.Shape f) {id : NodeId} {n : Node P} (hn : t.node? id = some n)
    (hid : id ≠ Timeline.root) : ∃ parent, n.parent = some parent := by
  have hpl : t.place? id = some n.place := by rw [place?, hn]; rfl
  have hmem : id ∈ f.order := h.mem_iff.mpr ⟨n, hn⟩
  obtain ⟨below, rfl⟩ := h.root
  have hbelow : id ∈ below.order := by simpa [Forest.order, hid] using hmem
  rcases h.threads.2.1.parent_mem hbelow hpl with hparent | ⟨q, -, hparent⟩
  · exact ⟨_, hparent⟩
  · exact ⟨q, hparent⟩

/-- A request that applies adds a node to the timeline and to the tree. -/
theorem answer_of_applies (h : t.Shape f) {g : Growth P} (hg : g.Applies t) :
    ∃ t', g.answer t = .ok (⟨t.size⟩, t') ∧ t'.Shape (g.grow ⟨t.size⟩ f) := by
  cases g with
  | adopt parent program =>
      obtain ⟨t', hadopt, hshape, -⟩ := h.adopt ((h.complete parent).mpr hg) program
      exact ⟨t', hadopt, hshape⟩
  | duplicate id =>
      obtain ⟨hsize, hroot⟩ := hg
      obtain ⟨n, hn⟩ := h.mem_iff.mp ((h.complete id).mpr hsize)
      obtain ⟨parent, hparent⟩ := h.exists_parent hn hroot
      obtain ⟨t', hduplicate, hshape, -⟩ := h.duplicate hn hparent
      exact ⟨t', hduplicate, hshape⟩

/-- Any other request is refused. -/
theorem answer_of_not_applies (h : t.Shape f) {g : Growth P} (hg : ¬g.Applies t) :
    g.answer t = .error g.refusal := by
  have hunknown : ∀ id : NodeId, ¬id.index < t.size → t.node id = .error (.unknownNode id) := by
    intro id hid
    rw [node, node?_eq_none.mpr (Nat.le_of_not_lt hid)]
  cases g with
  | adopt parent program =>
      simp only [Growth.answer, Timeline.adopt, hunknown parent hg, Growth.refusal]
      rfl
  | duplicate id =>
      simp only [Growth.answer, Timeline.duplicate, Growth.refusal]
      by_cases hroot : id = Timeline.root
      · obtain ⟨n, hn, hparent⟩ := h.parent_root
        rw [hroot, node_eq_ok.mpr hn, if_pos rfl]
        simp only [bind, Except.bind, hparent]
        rfl
      · have hsize : ¬id.index < t.size := fun hc => hg ⟨hc, hroot⟩
        rw [hunknown id hsize, if_neg hroot]
        rfl

end Shape

/-! ### Grown timelines -/

/-- The timelines that are made of their root by requests, successful or not. -/
inductive Grown : Timeline P → Prop
  | ofRoot (program : P) (initial : SnapshotState) : Grown (ofRoot program initial)
  | grow {t : Timeline P} (h : Grown t) (g : Growth P) : Grown (g.edit.apply t).2

/-- Every grown timeline has a shape. -/
theorem Grown.exists_shape (h : t.Grown) : ∃ f, t.Shape f := by
  induction h with
  | ofRoot program initial => exact ⟨_, shape_ofRoot program initial⟩
  | @grow t h g ih =>
      obtain ⟨f, hshape⟩ := ih
      rw [g.apply_edit]
      by_cases hg : g.Applies t
      · obtain ⟨t', hanswer, hshape'⟩ := hshape.answer_of_applies hg
        rw [hanswer]
        exact ⟨_, hshape'⟩
      · rw [hshape.answer_of_not_applies hg]
        exact ⟨f, hshape⟩

/-- What the links of a timeline do: they thread its nodes in pre-order, both ways, and none of the
loops that follow them goes on forever. -/
structure Threaded (t : Timeline P) : Prop where
  /-- Iterating in the chronological order ends. -/
  ends : Iterates t.after (some Timeline.root) t.chronological
  startsWithRoot : t.chronological.head? = some Timeline.root
  /-- The order has every node of the timeline exactly once. -/
  once : t.chronological.Nodup ∧ ∀ id, id ∈ t.chronological ↔ id.index < t.size
  /-- A node, then the subtrees of its children in the order of the siblings. -/
  preOrder : t.PreOrder [Timeline.root] t.chronological
  /-- Iterating over the children of a node ends, too. -/
  children : ∀ id, id.index < t.size →
    Iterates t.next? ((t.node? id).bind (·.firstChild)) (t.children id)
  inverse : ∀ x y, t.after x = some y ↔ t.before y = some x
  beforeRoot : t.before Timeline.root = none
  atTheLast : ∀ id, id.index < t.size →
    (t.after id = none ↔ t.chronological.getLast? = some id)
  /-- Without a child to go to, `after` goes up, and that ends with its answer. -/
  climbs : ∀ id n, t.node? id = some n → n.firstChild = none → t.Climbs id (t.after id)
  /-- From a previous sibling, `before` goes down, and that ends with its answer. -/
  descends : ∀ id n prev, t.node? id = some n → n.prev = some prev →
    ∃ exit, t.Descends prev exit ∧ t.before id = some exit

theorem Shape.threaded (h : t.Shape f) : t.Threaded where
  ends := h.iterates_chronological
  startsWithRoot := h.chronological_eq ▸ h.head?_order
  once := h.chronological_eq ▸ ⟨h.nodup, h.complete⟩
  preOrder := h.preOrder
  children := fun id hid => (h.children_eq ((h.complete id).mpr hid)).1
  inverse := fun _ _ => h.after_eq_some_iff
  beforeRoot := h.before_root
  atTheLast := fun id hid => h.chronological_eq ▸ h.after_eq_none_iff ((h.complete id).mpr hid)
  climbs := fun _ _ => h.climbs_after
  descends := fun _ _ _ => h.descends_before

/-- **Every timeline that can be grown is threaded, and it can be grown on at each of its nodes.**
A request for a node that is not there, or for a copy of the root, is refused and leaves the
timeline as it was. -/
theorem Grown.threaded_and_extensible (h : t.Grown) :
    t.Threaded ∧
      (∀ g : Growth P, g.Applies t →
        ∃ t', g.answer t = .ok (⟨t.size⟩, t') ∧ g.edit.apply t = (.ok ⟨t.size⟩, t')) ∧
      ∀ g : Growth P, ¬g.Applies t →
        g.answer t = .error g.refusal ∧ g.edit.apply t = (.error g.refusal, t) := by
  obtain ⟨f, hshape⟩ := h.exists_shape
  refine ⟨hshape.threaded, fun g hg => ?_, fun g hg => ?_⟩
  · obtain ⟨t', hanswer, -⟩ := hshape.answer_of_applies hg
    exact ⟨t', hanswer, by rw [g.apply_edit, hanswer]⟩
  · have hanswer := hshape.answer_of_not_applies hg
    exact ⟨hanswer, by rw [g.apply_edit, hanswer]⟩

/-- A root with three children, the copy of the first put between them, and a node below the first;
a copy of the root and a child of a node that is not there were asked for in between. -/
def sampleGrowth : Timeline Nat :=
  Edit.performAll Growth.edit
    [.adopt root 1, .duplicate root, .adopt root 2, .adopt ⟨1⟩ 3, .adopt ⟨9⟩ 4, .duplicate ⟨1⟩]
    (ofRoot 0 .pending)

theorem Grown.threaded_and_extensible_sample :
    sampleGrowth.Threaded ∧
      sampleGrowth.chronological = [⟨0⟩, ⟨1⟩, ⟨3⟩, ⟨4⟩, ⟨2⟩] ∧
      (∃ t', (Growth.duplicate ⟨3⟩).edit.apply sampleGrowth = (.ok ⟨5⟩, t')) ∧
      (Growth.duplicate root).edit.apply sampleGrowth = (.error .duplicateRoot, sampleGrowth) ∧
      (Growth.adopt ⟨9⟩ 4).edit.apply sampleGrowth = (.error (.unknownNode ⟨9⟩), sampleGrowth) := by
  have hgrown : sampleGrowth.Grown :=
    Edit.Keeps.performAll (fun g _ _ h => .grow h g) (.ofRoot 0 .pending)
  obtain ⟨hthreaded, happlies, hrefused⟩ := Grown.threaded_and_extensible hgrown
  obtain ⟨t', -, hcopy⟩ := happlies (.duplicate ⟨3⟩) ⟨by decide, by decide⟩
  have hroot := hrefused (.duplicate root) fun h => h.2 rfl
  have hmissing := hrefused (.adopt ⟨9⟩ 4) (show ¬(9 < sampleGrowth.size) by decide)
  exact ⟨hthreaded, by decide, ⟨t', hcopy⟩, hroot.2, hmissing.2⟩

end Timeline

end Chronicle
