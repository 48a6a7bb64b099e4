import Chronicle.Timeline.Basic
/-!
What an insertion does to a timeline, node by node.

A node is its links and the rest.  The links are its `Place`; the rest is the node `unlinked`.
`adopt` and `duplicate` put one scheduled node at the end of the array (`GrownBy`), and besides
that they change nothing but places: of the new node, of the node it was put next to, and of the
neighbours that have to know of it.  For a new last child `Place.linked` says which places these
are (`place?_linkLastChild`).
-/

namespace Chronicle

/-- The links of a node. -/
structure Place where
  parent : Option NodeId
  prev : Option NodeId
  next : Option NodeId
  firstChild : Option NodeId
  lastChild : Option NodeId

namespace Node

variable {P : Type}

def place (n : Node P) : Place := ⟨n.parent, n.prev, n.next, n.firstChild, n.lastChild⟩

/-- A node with its links taken away. -/
def unlinked (n : Node P) : Node P :=
  { n with parent := none, prev := none, next := none, firstChild := none, lastChild := none }

end Node

namespace Timeline

variable {P : Type}

/-- The links of the node with the given id. -/
def place? (t : Timeline P) (id : NodeId) : Option Place := (t.node? id).map Node.place

/-- The node with the given id, apart from its links. -/
def core? (t : Timeline P) (id : NodeId) : Option (Node P) := (t.node? id).map Node.unlinked

/-! ### Reading a node back -/

theorem node?_modify (t : Timeline P) (id q : NodeId) (f : Node P → Node P) :
    (t.modify id f).node? q = if q = id then (t.node? q).map f else t.node? q := by
  obtain ⟨i⟩ := id
  obtain ⟨j⟩ := q
  simp only [node?, modify, Array.getElem?_modify, NodeId.mk.injEq]
  by_cases h : i = j
  · simp [h]
  · simp [h, Ne.symm h]

theorem modify_modify (t : Timeline P) (id : NodeId) (f g : Node P → Node P) :
    (t.modify id f).modify id g = t.modify id (g ∘ f) := by
  simp only [modify, mk.injEq]
  refine Array.ext_getElem? fun i => ?_
  simp only [Array.getElem?_modify]
  split
  · rw [Option.map_map]
  · rfl

@[simp] theorem size_modify (t : Timeline P) (id : NodeId) (f : Node P → Node P) :
    (t.modify id f).size = t.size := by
  simp [size, modify]

theorem node?_push (t : Timeline P) (n : Node P) (q : NodeId) :
    (⟨t.nodes.push n⟩ : Timeline P).node? q = if q = ⟨t.size⟩ then some n else t.node? q := by
  obtain ⟨j⟩ := q
  simp only [node?, size, Array.getElem?_push, NodeId.mk.injEq]

theorem node?_isSome {t : Timeline P} {id : NodeId} : (t.node? id).isSome ↔ id.index < t.size := by
  simp [node?, size]

theorem node?_eq_none {t : Timeline P} {id : NodeId} : t.node? id = none ↔ t.size ≤ id.index := by
  simp [node?, size]

theorem place?_isSome {t : Timeline P} {id : NodeId} :
    (t.place? id).isSome ↔ id.index < t.size := by
  rw [place?, Option.isSome_map, node?_isSome]

theorem place?_size (t : Timeline P) : t.place? ⟨t.size⟩ = none := by
  rw [place?, Option.map_eq_none_iff]
  exact node?_eq_none.mpr (Nat.le_refl _)

theorem node_eq_ok {t : Timeline P} {id : NodeId} {n : Node P} :
    t.node id = .ok n ↔ t.node? id = some n := by
  unfold node
  cases t.node? id <;> simp

/-- The change of a field that is no link leaves every place as it was. -/
theorem place?_modify_of_place (t : Timeline P) (id q : NodeId) (f : Node P → Node P)
    (hf : ∀ n, (f n).place = n.place) : (t.modify id f).place? q = t.place? q := by
  unfold place?
  rw [node?_modify]
  split
  · rw [Option.map_map]
    congr 1
    funext n
    exact hf n
  · rfl

theorem core?_modify (t : Timeline P) (id q : NodeId) (f g : Node P → Node P)
    (hf : ∀ n, (f n).unlinked = g n.unlinked) :
    (t.modify id f).core? q = if q = id then (t.core? q).map g else t.core? q := by
  unfold core?
  rw [node?_modify]
  split
  · rw [Option.map_map, Option.map_map]
    congr 1
    funext n
    exact hf n
  · rfl

theorem core?_modify_of_ne (t : Timeline P) {id q : NodeId} (f : Node P → Node P) (hq : q ≠ id) :
    (t.modify id f).core? q = t.core? q := by
  rw [core?, node?_modify, if_neg hq, core?]

/-! ### Growing by one node -/

/-- `t'` has one more node than `t`, scheduled to run `job`, and apart from links the nodes of `t`
are as they were. -/
structure GrownBy (t t' : Timeline P) (job : P) : Prop where
  size : t'.size = t.size + 1
  fresh : t'.core? ⟨t.size⟩ = some (.scheduled job)
  kept : ∀ id, id.index < t.size → t'.core? id = t.core? id

/-- Changing the links of nodes that are there is no growth. -/
theorem GrownBy.modify {t t' : Timeline P} {job : P} (h : GrownBy t t' job) (id : NodeId)
    {f : Node P → Node P} (hf : ∀ n, (f n).unlinked = n.unlinked) :
    GrownBy t (t'.modify id f) job := by
  have hsame : ∀ q, (t'.modify id f).core? q = t'.core? q := by
    intro q
    rw [core?_modify t' id q f (fun n => n) hf]
    split
    · exact Option.map_id'
    · rfl
  refine ⟨by rw [size_modify, h.size], ?_, ?_⟩
  · rw [hsame, h.fresh]
  · intro q hq
    rw [hsame, h.kept q hq]

theorem grownBy_push (t : Timeline P) (job : P) :
    GrownBy t ⟨t.nodes.push (.scheduled job)⟩ job := by
  refine ⟨by simp [size], ?_, ?_⟩
  · rw [core?, node?_push, if_pos rfl]
    rfl
  · intro q hq
    have hne : q ≠ ⟨t.size⟩ := by
      intro heq
      subst heq
      exact Nat.lt_irrefl _ hq
    rw [core?, node?_push, if_neg hne, core?]

theorem GrownBy.linkLastChild {t t' : Timeline P} {job : P} (h : GrownBy t t' job)
    (parent child : NodeId) : GrownBy t (t'.linkLastChild parent child) job := by
  unfold Timeline.linkLastChild
  cases (t'.node? parent).bind (·.lastChild) with
  | none =>
      refine ((h.modify parent ?_).modify parent ?_).modify child ?_ <;> intro n <;> rfl
  | some last =>
      refine (((h.modify last ?_).modify child ?_).modify parent ?_).modify child ?_ <;>
        intro n <;> rfl

/-! ### The places that change -/

theorem place?_modify (t : Timeline P) (id q : NodeId) (f : Node P → Node P)
    (g : Place → Place) (hf : ∀ n, (f n).place = g n.place) :
    (t.modify id f).place? q = if q = id then (t.place? q).map g else t.place? q := by
  unfold place?
  rw [node?_modify]
  split
  · rw [Option.map_map, Option.map_map]
    congr 1
    funext n
    exact hf n
  · rfl

theorem place?_push (t : Timeline P) (job : P) (q : NodeId) :
    (⟨t.nodes.push (.scheduled job)⟩ : Timeline P).place? q =
      if q = ⟨t.size⟩ then some ⟨none, none, none, none, none⟩ else t.place? q := by
  unfold place?
  rw [node?_push]
  split <;> rfl

/-- What putting `child` behind the children of `parent` makes of the place of `q`. -/
def Place.linked (parent child : NodeId) (last : Option NodeId) (q : NodeId) (pl : Place) : Place :=
  if q = child then { pl with parent := some parent, prev := last.or pl.prev }
  else if q = parent then
    { pl with
      firstChild := if last = none then some child else pl.firstChild, lastChild := some child }
  else if last = some q then { pl with next := some child }
  else pl

theorem place?_linkLastChild (t : Timeline P) {parent child : NodeId} {pl : Place}
    (hparent : t.place? parent = some pl) (hne : parent ≠ child) (hlast : pl.lastChild ≠ some child)
    (hself : pl.lastChild ≠ some parent) (q : NodeId) :
    (t.linkLastChild parent child).place? q =
      (t.place? q).map (Place.linked parent child pl.lastChild q) := by
  have hbind : (t.node? parent).bind (·.lastChild) = pl.lastChild := by
    obtain ⟨n, hn, hpl⟩ := Option.map_eq_some_iff.mp hparent
    rw [hn, ← hpl]
    rfl
  unfold linkLastChild
  rw [hbind]
  cases hl : pl.lastChild with
  | none =>
      simp only
      rw [place?_modify _ child q _ (fun pl => { pl with parent := some parent }) fun _ => rfl,
        place?_modify _ parent q _ (fun pl => { pl with lastChild := some child }) fun _ => rfl,
        place?_modify _ parent q _ (fun pl => { pl with firstChild := some child }) fun _ => rfl]
      by_cases hc : q = child
      · subst hc
        cases t.place? q <;> simp [Place.linked, Ne.symm hne]
      · by_cases hp : q = parent
        · subst hp
          cases t.place? q <;> simp [Place.linked, hne]
        · cases t.place? q <;> simp [Place.linked, hc, hp]
  | some last =>
      have hlc : last ≠ child := by
        intro heq
        subst heq
        exact hlast hl
      have hlp : last ≠ parent := by
        intro heq
        subst heq
        exact hself hl
      simp only
      rw [place?_modify _ child q _ (fun pl => { pl with parent := some parent }) fun _ => rfl,
        place?_modify _ parent q _ (fun pl => { pl with lastChild := some child }) fun _ => rfl,
        place?_modify _ child q _ (fun pl => { pl with prev := some last }) fun _ => rfl,
        place?_modify _ last q _ (fun pl => { pl with next := some child }) fun _ => rfl]
      by_cases hc : q = child
      · subst hc
        cases t.place? q <;> simp [Place.linked, Ne.symm hne, Ne.symm hlc]
      · by_cases hp : q = parent
        · subst hp
          cases t.place? q <;> simp [Place.linked, hne, Ne.symm hlp]
        · by_cases hql : q = last
          · subst hql
            cases t.place? q <;> simp [Place.linked, hc, hp]
          · cases t.place? q <;> simp [Place.linked, hc, hp, hql, Ne.symm hql]

end Timeline

end Chronicle
