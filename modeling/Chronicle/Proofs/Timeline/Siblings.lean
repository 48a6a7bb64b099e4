import Chronicle.Proofs.Edit
import Chronicle.Proofs.Timeline.Position
/-!
Siblings in the order.

Between a node and its next sibling the order has what is below the node, and nothing else
(`Shape.order_next`, `Shape.chronological_next`); in the row of children nothing is between the two
(`Shape.children_next`).  The link to the previous sibling is the same link the other way round
(`Shape.next_of_prev`).

Of the links to a next sibling a timeline that grows changes few: a new child becomes the next sibling
of what was the last child (`Shape.next?_adopt`), and a copy goes between its original and the one
behind that (`Shape.next?_duplicate`).
-/

namespace Chronicle

namespace Forest

theorem mem_roots_of_last? {f : Forest} {q : NodeId} (h : f.last? = some q) : q ∈ f.roots := by
  induction f with
  | nil => cases h
  | cons id below behind _ ih =>
      rw [last?_cons] at h
      rcases Option.or_eq_some_iff.mp h with h | ⟨-, h⟩
      · exact List.mem_cons_of_mem _ (ih h)
      · exact Option.some.inj h ▸ List.mem_cons_self

theorem mem_order_of_mem_above {p q : NodeId} {f : Forest} (h : p ∈ f.above q) : p ∈ f.order := by
  induction f with
  | nil => cases h
  | cons id below behind ihBelow ihBehind =>
      rw [mem_order_cons]
      simp only [above] at h
      split at h
      · cases h
      · split at h
        · rcases List.mem_append.mp h with h | h
          · exact .inr (.inl (ihBelow h))
          · exact .inl (List.mem_singleton.mp h)
        · exact .inr (.inr (ihBehind h))

/-- What stands under a node is what has it above. -/
theorem mem_under_iff {p q : NodeId} {f : Forest} (hnodup : f.order.Nodup) (hq : q ∈ f.order) :
    q ∈ (f.under p).order ↔ p ∈ f.above q := by
  induction f with
  | nil => cases hq
  | cons id below behind ihBelow ihBehind =>
      obtain ⟨⟨hidBelow, hidBehind⟩, hnodupBelow, hnodupBehind, hdisjoint⟩ :=
        nodup_order_cons.mp hnodup
      rcases mem_order_cons.mp hq with rfl | hq | hq
      · -- Nothing stands above a root, and no root stands under a node.
        rw [above, if_pos rfl, under]
        refine iff_of_false (fun hc => ?_) List.not_mem_nil
        split at hc
        · exact hidBelow hc
        · split at hc
          · exact hidBelow (order_under_subset hc)
          · exact hidBehind (order_under_subset hc)
      · have hid : id ≠ q := fun hc => hidBelow (hc ▸ hq)
        rw [above, if_neg hid, if_pos hq, List.mem_append, List.mem_singleton, under]
        split
        · next hp => exact iff_of_true hq (.inr hp.symm)
        · next hp =>
            have hself : p ≠ id := fun hc => hp hc.symm
            split
            · rw [ihBelow hnodupBelow hq, or_iff_left hself]
            · next hpBelow =>
                rw [or_iff_left hself]
                exact iff_of_false (fun hc => hdisjoint q hq (order_under_subset hc))
                  fun hc => hpBelow (mem_order_of_mem_above hc)
      · have hid : id ≠ q := fun hc => hidBehind (hc ▸ hq)
        have hqBelow : q ∉ below.order := fun hc => hdisjoint q hc hq
        rw [above, if_neg hid, if_neg hqBelow, under]
        split
        · next hp =>
            exact iff_of_false hqBelow fun hc => hidBehind (hp ▸ mem_order_of_mem_above hc)
        · split
          · next hp =>
              exact iff_of_false (fun hc => hqBelow (order_under_subset hc))
                fun hc => hdisjoint p hp (mem_order_of_mem_above hc)
          · exact ihBehind hnodupBehind hq

end Forest

namespace Timeline

/-- What a link leads to comes right after in what is visited. -/
theorem Iterates.eq_append_of_link {link : NodeId → Option NodeId} {start : Option NodeId}
    {visited : List NodeId} {x y : NodeId} (h : Iterates link start visited) (hx : x ∈ visited)
    (hlink : link x = some y) : ∃ front later, visited = front ++ x :: y :: later := by
  induction h with
  | done => cases hx
  | @visit id visited h ih =>
      rcases List.mem_cons.mp hx with rfl | hx
      · rw [hlink] at h
        cases h with
        | visit h => exact ⟨[], _, rfl⟩
      · obtain ⟨front, later, rfl⟩ := ih hx
        exact ⟨id :: front, later, rfl⟩

variable {P : Type} {t t' : Timeline P} {f : Forest} {c copy p q : NodeId}

namespace Threads

variable {parent prev : Option NodeId} {pl : Place}

/-- Behind a node comes what is below it, and then its next sibling. -/
theorem order_next (h : t.Threads parent prev f) (hnodup : f.order.Nodup) (hp : p ∈ f.order)
    (hpl : t.place? p = some pl) (hnext : pl.next = some q) :
    ∃ front later, f.order = front ++ p :: ((f.under p).order ++ q :: later) := by
  induction f generalizing parent prev with
  | nil => cases hp
  | cons id below behind ihBelow ihBehind =>
      obtain ⟨hid, hbelow, hbehind⟩ := h
      obtain ⟨⟨hidBelow, hidBehind⟩, hnodupBelow, hnodupBehind, hdisjoint⟩ :=
        Forest.nodup_order_cons.mp hnodup
      rcases Forest.mem_order_cons.mp hp with rfl | hp | hp
      · rw [hid, Option.some.injEq] at hpl
        subst hpl
        rw [Forest.first?_eq_head?] at hnext
        obtain ⟨later, hlater⟩ := List.head?_eq_some_iff.mp hnext
        refine ⟨[], later, ?_⟩
        rw [Forest.under, if_pos rfl, Forest.order, hlater]
        rfl
      · have hne : id ≠ p := fun hc => hidBelow (hc ▸ hp)
        obtain ⟨front, later, horder⟩ := ihBelow hbelow hnodupBelow hp
        refine ⟨id :: front, later ++ behind.order, ?_⟩
        rw [Forest.under, if_neg hne, if_pos hp, Forest.order, horder]
        simp
      · have hne : id ≠ p := fun hc => hidBehind (hc ▸ hp)
        have hnot : p ∉ below.order := fun hc => hdisjoint p hc hp
        obtain ⟨front, later, horder⟩ := ihBehind hbehind hnodupBehind hp
        refine ⟨id :: (below.order ++ front), later, ?_⟩
        rw [Forest.under, if_neg hne, if_neg hnot, Forest.order, horder]
        simp

/-- The previous sibling of a node has it for its next one, unless it stands before the row. -/
theorem next_of_prev (h : t.Threads parent prev f) (hp : p ∈ f.order)
    (hpl : t.place? p = some pl) (hprev : pl.prev = some q) :
    (f.first? = some p ∧ prev = some q) ∨
      q ∈ f.order ∧ ∃ plq, t.place? q = some plq ∧ plq.next = some p := by
  induction f generalizing parent prev with
  | nil => cases hp
  | cons id below behind ihBelow ihBehind =>
      obtain ⟨hid, hbelow, hbehind⟩ := h
      rcases Forest.mem_order_cons.mp hp with rfl | hp | hp
      · rw [hid, Option.some.injEq] at hpl
        subst hpl
        exact .inl ⟨rfl, hprev⟩
      · right
        obtain ⟨-, hnone⟩ | ⟨hq, hplace⟩ := ihBelow hbelow hp
        · cases hnone
        · exact ⟨Forest.mem_order_cons.mpr (.inr (.inl hq)), hplace⟩
      · right
        obtain ⟨hfirst, hsame⟩ | ⟨hq, hplace⟩ := ihBehind hbehind hp
        · obtain rfl := Option.some.inj hsame
          exact ⟨List.mem_cons_self, _, hid, hfirst⟩
        · exact ⟨Forest.mem_order_cons.mpr (.inr (.inr hq)), hplace⟩

end Threads

/-! ### The tree -/

namespace Shape

variable {n : Node P}

/-- **Between a node and its next sibling there is what is below the node.** -/
theorem order_next (h : t.Shape f) (hn : t.node? p = some n) (hnext : n.next = some q) :
    ∃ front later, f.order = front ++ p :: ((f.under p).order ++ q :: later) := by
  have hpl : t.place? p = some n.place := by
    rw [place?, hn]
    rfl
  exact h.threads.order_next h.nodup (h.mem_iff.mpr ⟨n, hn⟩) hpl hnext

/-- A node is the next sibling of its previous one. -/
theorem next_of_prev (h : t.Shape f) (hn : t.node? p = some n) (hprev : n.prev = some q) :
    ∃ m, t.node? q = some m ∧ m.next = some p := by
  have hpl : t.place? p = some n.place := by
    rw [place?, hn]
    rfl
  obtain ⟨-, hnone⟩ | ⟨-, plq, hplq, hnext⟩ :=
    h.threads.next_of_prev (h.mem_iff.mpr ⟨n, hn⟩) hpl hprev
  · cases hnone
  · obtain ⟨m, hm, rfl⟩ := Option.map_eq_some_iff.mp hplq
    exact ⟨m, hm, hnext⟩

/-- The next sibling of a node comes right after it among the children of its parent. -/
theorem children_next (h : t.Shape f) (hparent : t.parent? c = some p) (hnext : t.next? c = some q) :
    ∃ front later, t.children p = front ++ c :: q :: later := by
  obtain ⟨n, hn, -⟩ := Option.bind_eq_some_iff.mp hparent
  rcases h.threads.mem_roots h.nodup (h.mem_iff.mpr ⟨n, hn⟩) with hroot | ⟨p', hp', hsame, hmem⟩
  · rw [h.threads.parent_of_mem_roots hroot] at hparent
    cases hparent
  · obtain rfl : p' = p := Option.some.inj (hsame.symm.trans hparent)
    obtain ⟨hiterates, hchildren⟩ := h.children_eq hp'
    exact hiterates.eq_append_of_link (hchildren ▸ hmem) hnext

/-- In the order, what is below a node stands between it and its next sibling. -/
theorem chronological_next (h : t.Shape f) (hnext : t.next? c = some q) :
    ∃ front below later, t.chronological = front ++ c :: (below ++ q :: later) ∧
      ∀ id, id ∈ below ↔ c ∈ t.ancestors id := by
  obtain ⟨n, hn, hq⟩ := Option.bind_eq_some_iff.mp hnext
  obtain ⟨front, later, horder⟩ := h.order_next hn hq
  refine ⟨front, (f.under c).order, later, h.chronological_eq.trans horder, fun id => ?_⟩
  by_cases hid : id ∈ f.order
  · rw [Forest.mem_under_iff h.nodup hid, (h.ancestors_eq hid).2]
  · -- What is not there has no ancestors.
    have hnone : t.parent? id = none := by
      rw [parent?, Option.bind_eq_none_iff]
      exact fun n hn => absurd (h.mem_iff.mpr ⟨n, hn⟩) hid
    have hancestors : t.ancestors id = [] := by
      rw [ancestors, hnone]
      cases t.size <;> rfl
    rw [hancestors]
    exact iff_of_false (fun hc => hid (Forest.order_under_subset hc)) List.not_mem_nil

end Shape

/-! ### Growing -/

theorem next?_eq_place? (t : Timeline P) (id : NodeId) :
    t.next? id = (t.place? id).bind (·.next) := by
  rw [next?, place?]
  cases t.node? id <;> rfl

theorem next?_modify (t : Timeline P) (id q : NodeId) {g : Node P → Node P}
    (hplace : ∀ n, (g n).place = n.place) : (t.modify id g).next? q = t.next? q := by
  rw [next?_eq_place?, next?_eq_place?, place?_modify_of_place t id q g hplace]

namespace Shape

/-- The last child of a node is a child of it. -/
theorem parent?_lastChild (h : t.Shape f) {pl : Place} (hpl : t.place? c = some pl)
    (hlast : pl.lastChild = some q) : t.parent? q = some c := by
  have hmem : c ∈ f.order := by
    rw [h.complete, ← place?_isSome, hpl]
    rfl
  rw [(h.threads.under hmem hpl).2] at hlast
  exact (h.threads.threads_under hmem).parent_of_mem_roots (Forest.mem_roots_of_last? hlast)

/-- A new child of `c` becomes the next sibling of a child of `c`, if of any node. -/
theorem next?_adopt (h : t.Shape f) {job : P} {child : NodeId}
    (hadopt : t.adopt c job = .ok (child, t')) (hq : q ≠ ⟨t.size⟩)
    (hparent : t.parent? q ≠ some c) : t'.next? q = t.next? q := by
  obtain ⟨n, hn, hadopt⟩ := exists_of_bind_eq_ok hadopt
  obtain ⟨-, rfl⟩ := Prod.mk.inj (Except.ok.inj hadopt)
  have hpl : t.place? c = some n.place := by
    rw [place?, node_eq_ok.mp hn]
    rfl
  have hlast : n.place.lastChild ≠ some q := fun hc => hparent (h.parent?_lastChild hpl hc)
  rw [next?_eq_place?, next?_eq_place?, h.place?_link job hpl, if_neg hq]
  cases t.place? q with
  | none => rfl
  | some plq =>
      simp only [Option.map_some, Option.bind_some, Place.linked, if_neg hq, if_neg hlast]
      split <;> rfl

/-- A copy that is put in front of the next sibling of `c`. -/
theorem next?_spliced (h : t.Shape f) {pl : Place} {next : NodeId} (hpl : t.place? c = some pl)
    (hnext : pl.next = some next) (hmem : c ∈ f.order) (job : P) (parent q : NodeId) :
    (t.spliced job parent c next).next? q =
      if q = ⟨t.size⟩ then some next else if q = c then some ⟨t.size⟩ else t.next? q := by
  have hnew : ∀ {x}, x ∈ f.order → x ≠ ⟨t.size⟩ := fun hx hc => h.size_not_mem (hc ▸ hx)
  have hnextMem : next ∈ f.order := h.threads.next_mem hmem hpl hnext
  have hne : next ≠ c := fun hc => h.threads.next_ne h.nodup hmem hpl (hc ▸ hnext)
  rw [next?_eq_place?, t.place?_spliced job parent (hnew hmem) (hnew hnextMem) hne,
    next?_eq_place?]
  by_cases hq : q = ⟨t.size⟩
  · rw [if_pos hq, if_pos hq, Option.bind_some]
  · rw [if_neg hq, if_neg hq]
    by_cases hqn : q = next
    · subst hqn
      rw [if_pos rfl, if_neg hne]
      cases t.place? q <;> rfl
    · rw [if_neg hqn]
      by_cases hqc : q = c
      · rw [if_pos hqc, if_pos hqc, hqc, hpl, Option.map_some, Option.bind_some]
      · rw [if_neg hqc, if_neg hqc]

/-- A copy that is put behind the last of its siblings. -/
theorem next?_linked (h : t.Shape f) {above : Place} {parent : NodeId}
    (habove : t.place? parent = some above) (hlast : above.lastChild = some c) (hne : c ≠ parent)
    (hmem : c ∈ f.order) (job : P) (q : NodeId) :
    (linkLastChild ⟨t.nodes.push (.scheduled job)⟩ parent ⟨t.size⟩).next? q =
      if q = ⟨t.size⟩ then none else if q = c then some ⟨t.size⟩ else t.next? q := by
  rw [next?_eq_place?, h.place?_link job habove, hlast, next?_eq_place?]
  by_cases hq : q = ⟨t.size⟩
  · rw [if_pos hq, if_pos hq, Option.bind_some]
  · rw [if_neg hq, if_neg hq]
    by_cases hqc : q = c
    · subst hqc
      obtain ⟨n, hn⟩ := h.mem_iff.mp hmem
      rw [if_pos rfl, place?, hn]
      simp [Place.linked, hq, hne]
    · rw [if_neg hqc]
      cases t.place? q with
      | none => rfl
      | some plq =>
          have hother : ¬some c = some q := fun hc => hqc (Option.some.inj hc).symm
          simp only [Option.map_some, Option.bind_some, Place.linked, if_neg hq, if_neg hother]
          split <;> rfl

/-- The copy of a node stands between it and the one that was its next sibling. -/
theorem next?_duplicate (h : t.Shape f) (hduplicate : t.duplicate c = .ok (copy, t')) (q : NodeId) :
    copy = ⟨t.size⟩ ∧
      t'.next? q = if q = copy then t.next? c else if q = c then some copy else t.next? q := by
  obtain ⟨source, hsource, hduplicate⟩ := exists_of_bind_eq_ok hduplicate
  have hnode := node_eq_ok.mp hsource
  have hmem : c ∈ f.order := h.mem_iff.mpr ⟨source, hnode⟩
  have hpl : t.place? c = some source.place := by
    rw [place?, hnode]
    rfl
  have hself : t.next? c = source.next := by
    rw [next?, hnode]
    rfl
  cases hparent : source.parent with
  | none => simp [hparent] at hduplicate
  | some parent =>
      simp only [hparent] at hduplicate
      cases hnext : source.next with
      | some next =>
          simp only [hnext] at hduplicate
          obtain ⟨rfl, rfl⟩ := Prod.mk.inj (Except.ok.inj hduplicate)
          rw [hself, hnext]
          exact ⟨rfl, h.next?_spliced hpl hnext hmem source.program parent q⟩
      | none =>
          simp only [hnext] at hduplicate
          obtain ⟨rfl, rfl⟩ := Prod.mk.inj (Except.ok.inj hduplicate)
          obtain ⟨hparentMem, hlast⟩ := h.threads.last?_under h.nodup hmem hpl hnext
            (show source.place.parent = some parent from hparent) (by simp)
          obtain ⟨above, habove⟩ := h.mem_iff.mp hparentMem
          have hplAbove : t.place? parent = some above.place := by
            rw [place?, habove]
            rfl
          have hlastChild : above.place.lastChild = some c :=
            (h.threads.under hparentMem hplAbove).2.trans hlast
          have hne : c ≠ parent := fun hc =>
            Forest.not_mem_under h.nodup (hc ▸ Forest.mem_of_last? hlast)
          rw [hself, hnext]
          exact ⟨rfl, h.next?_linked hplAbove hlastChild hne hmem source.program q⟩

end Shape

end Timeline

end Chronicle
