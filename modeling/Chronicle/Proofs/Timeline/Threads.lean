import Chronicle.Proofs.Timeline.Forest
import Chronicle.Proofs.Timeline.Links
/-!
The links of a timeline thread a tree.

`Threads t parent prev f` reads the six links of every node off the forest `f`: its parent, its
neighbours among its siblings, and the ends of the row of its children.  `Shape t f` says that `f`
is the one tree whose nodes are all nodes of `t`, each once.  That is the invariant: a timeline
has a shape when it holds its root alone, and `adopt` and `duplicate` keep it
(`Shape.adopt`, `Shape.duplicate`), the tree growing by the operation of the same name.

Both proofs go by induction on the forest.  In it the links of most nodes stay as they were, and
what has to be shown of the few that change is where in the forest they stand; hence the lemmas on
where the links of a node can lead.
-/

namespace Chronicle

namespace Timeline

variable {P : Type} {t t' : Timeline P}

/-- The links of `t` are those of the forest `f`, whose roots stand below `parent` and behind
`prev`. -/
def Threads (t : Timeline P) : (parent prev : Option NodeId) → Forest → Prop
  | _, _, .nil => True
  | parent, prev, .cons id below behind =>
    t.place? id = some ⟨parent, prev, behind.first?, below.first?, below.last?⟩ ∧
      t.Threads (some id) none below ∧ t.Threads parent (some id) behind

namespace Threads

variable {parent prev : Option NodeId} {f : Forest}

/-- Only the places of the forest's own nodes matter. -/
theorem frame (h : t.Threads parent prev f) (hsame : ∀ q ∈ f.order, t'.place? q = t.place? q) :
    t'.Threads parent prev f := by
  induction f generalizing parent prev with
  | nil => trivial
  | cons id below behind ihBelow ihBehind =>
      obtain ⟨hid, hbelow, hbehind⟩ := h
      refine ⟨?_, ihBelow hbelow ?_, ihBehind hbehind ?_⟩
      · rw [hsame id (by simp [Forest.order]), hid]
      · exact fun q hq => hsame q (by simp [Forest.order, hq])
      · exact fun q hq => hsame q (by simp [Forest.order, hq])

/-! ### Where links lead -/

/-- The row of children of a node is what stands under it. -/
theorem under (h : t.Threads parent prev f) {p : NodeId} {pl : Place} (hp : p ∈ f.order)
    (hpl : t.place? p = some pl) :
    pl.firstChild = (f.under p).first? ∧ pl.lastChild = (f.under p).last? := by
  induction f generalizing parent prev with
  | nil => simp [Forest.order] at hp
  | cons id below behind ihBelow ihBehind =>
      obtain ⟨hid, hbelow, hbehind⟩ := h
      by_cases hidp : id = p
      · subst hidp
        rw [hid, Option.some.injEq] at hpl
        subst hpl
        simp [Forest.under]
      · by_cases hb : p ∈ below.order
        · simpa [Forest.under, hidp, hb] using ihBelow hbelow hb
        · simpa [Forest.under, hidp, hb] using ihBehind hbehind (Forest.mem_behind hp hidp hb)

theorem next_mem (h : t.Threads parent prev f) {p q : NodeId} {pl : Place} (hp : p ∈ f.order)
    (hpl : t.place? p = some pl) (hq : pl.next = some q) : q ∈ f.order := by
  induction f generalizing parent prev with
  | nil => simp [Forest.order] at hp
  | cons id below behind ihBelow ihBehind =>
      obtain ⟨hid, hbelow, hbehind⟩ := h
      rw [Forest.mem_order_cons]
      rcases Forest.mem_order_cons.mp hp with rfl | hp | hp
      · rw [hid, Option.some.injEq] at hpl
        subst hpl
        exact Or.inr (Or.inr (Forest.mem_of_first? hq))
      · exact Or.inr (Or.inl (ihBelow hbelow hp))
      · exact Or.inr (Or.inr (ihBehind hbehind hp))

theorem parent_mem (h : t.Threads parent prev f) {p : NodeId} {pl : Place} (hp : p ∈ f.order)
    (hpl : t.place? p = some pl) : pl.parent = parent ∨ ∃ q ∈ f.order, pl.parent = some q := by
  induction f generalizing parent prev with
  | nil => simp [Forest.order] at hp
  | cons id below behind ihBelow ihBehind =>
      obtain ⟨hid, hbelow, hbehind⟩ := h
      rcases Forest.mem_order_cons.mp hp with rfl | hp | hp
      · rw [hid, Option.some.injEq] at hpl
        subst hpl
        exact Or.inl rfl
      · refine Or.inr ?_
        rcases ihBelow hbelow hp with hq | ⟨q, hq, hpq⟩
        · exact ⟨id, by simp [Forest.order], hq⟩
        · exact ⟨q, by simp [Forest.order, hq], hpq⟩
      · refine (ihBehind hbehind hp).imp_right ?_
        intro hmem
        obtain ⟨q, hq, hpq⟩ := hmem
        exact ⟨q, by simp [Forest.order, hq], hpq⟩

/-- No link goes from a node of the forest to one that is neither in it nor right above it. -/
theorem links_inside (h : t.Threads parent prev f) {p q : NodeId} {pl : Place} (hp : p ∈ f.order)
    (hpl : t.place? p = some pl) (hq : q ∉ f.order) (hparent : parent ≠ some q) :
    q ≠ p ∧ pl.next ≠ some q ∧ pl.parent ≠ some q := by
  refine ⟨fun hc => hq (hc ▸ hp), fun hc => hq (h.next_mem hp hpl hc), fun hc => ?_⟩
  rcases h.parent_mem hp hpl with hpar | ⟨q', hq', hpar⟩
  · exact hparent (hpar ▸ hc)
  · rw [hpar, Option.some.injEq] at hc
    exact hq (hc ▸ hq')

/-- The last of a row is the node of the row that nothing stands behind. -/
theorem last?_eq_some_iff {id : NodeId} (h : t.Threads (some id) prev f) (hid : id ∉ f.order)
    (hnodup : f.order.Nodup) {p : NodeId} {pl : Place} (hp : p ∈ f.order)
    (hpl : t.place? p = some pl) :
    f.last? = some p ↔ pl.next = none ∧ pl.parent = some id := by
  induction f generalizing prev with
  | nil => simp [Forest.order] at hp
  | cons i below behind _ ihBehind =>
      obtain ⟨hi, hbelow, hbehind⟩ := h
      obtain ⟨⟨hiBelow, hiBehind⟩, -, hnodupBehind, hdisjoint⟩ := Forest.nodup_order_cons.mp hnodup
      have hidBehind : id ∉ behind.order := fun hc => hid (by simp [Forest.order, hc])
      rw [Forest.last?_cons]
      rcases Forest.mem_order_cons.mp hp with rfl | hp | hp
      · rw [hi, Option.some.injEq] at hpl
        subst hpl
        constructor
        · intro hlast
          cases hb : behind.last? with
          | none => exact ⟨by rw [Forest.first?_eq_none, ← Forest.last?_eq_none, hb], rfl⟩
          | some q =>
              rw [hb, Option.some_or, Option.some.injEq] at hlast
              subst hlast
              exact absurd (Forest.mem_of_last? hb) hiBehind
        · intro hmem
          obtain ⟨hnext, -⟩ := hmem
          have hnil : behind = .nil := Forest.first?_eq_none.mp hnext
          rw [hnil]
          rfl
      · -- A node further down is not in the row, and its parent is not above the row.
        have hne : i ≠ p := fun hc => hiBelow (hc ▸ hp)
        constructor
        · intro hlast
          cases hb : behind.last? with
          | none =>
              rw [hb, Option.none_or, Option.some.injEq] at hlast
              exact absurd hlast hne
          | some q =>
              rw [hb, Option.some_or, Option.some.injEq] at hlast
              subst hlast
              exact absurd (Forest.mem_of_last? hb) (hdisjoint q hp)
        · intro hmem
          have hidBelow : id ∉ below.order := fun hc => hid (by simp [Forest.order, hc])
          have hne' : some i ≠ some id := fun hc => hid (by simp [Forest.order, Option.some.inj hc])
          exact absurd hmem.2 (hbelow.links_inside hp hpl hidBelow hne').2.2
      · rw [← ihBehind hbehind hidBehind hnodupBehind hp]
        cases hb : behind.last? with
        | none =>
            rw [Forest.last?_eq_none] at hb
            subst hb
            simp [Forest.order] at hp
        | some q => rw [Option.some_or]

/-- A node with nothing behind it ends the row of its parent. -/
theorem last?_under {p q : NodeId} {pl : Place} (h : t.Threads parent prev f)
    (hnodup : f.order.Nodup) (hp : p ∈ f.order) (hpl : t.place? p = some pl)
    (hnext : pl.next = none) (hparent : pl.parent = some q) (hq : parent ≠ some q) :
    q ∈ f.order ∧ (f.under q).last? = some p := by
  induction f generalizing parent prev with
  | nil => simp [Forest.order] at hp
  | cons id below behind ihBelow ihBehind =>
      obtain ⟨hid, hbelow, hbehind⟩ := h
      obtain ⟨⟨hidBelow, hidBehind⟩, hnodupBelow, hnodupBehind, hdisjoint⟩ :=
        Forest.nodup_order_cons.mp hnodup
      rcases Forest.mem_order_cons.mp hp with rfl | hp | hp
      · rw [hid, Option.some.injEq] at hpl
        subst hpl
        exact absurd hparent hq
      · by_cases hidq : id = q
        · subst hidq
          refine ⟨by simp [Forest.order], ?_⟩
          rw [Forest.under, if_pos rfl]
          exact (hbelow.last?_eq_some_iff hidBelow hnodupBelow hp hpl).mpr ⟨hnext, hparent⟩
        · obtain ⟨hmem, hlast⟩ := ihBelow hbelow hnodupBelow hp (by simpa using hidq)
          refine ⟨by simp [Forest.order, hmem], ?_⟩
          rw [Forest.under, if_neg hidq, if_pos hmem, hlast]
      · obtain ⟨hmem, hlast⟩ := ihBehind hbehind hnodupBehind hp hq
        refine ⟨by simp [Forest.order, hmem], ?_⟩
        have hidq : ¬id = q := fun hc => hidBehind (hc ▸ hmem)
        have hqBelow : q ∉ below.order := fun hc => hdisjoint q hc hmem
        rw [Forest.under, if_neg hidq, if_neg hqBelow, hlast]

theorem next_ne {p : NodeId} {pl : Place} (h : t.Threads parent prev f) (hnodup : f.order.Nodup)
    (hp : p ∈ f.order) (hpl : t.place? p = some pl) : pl.next ≠ some p := by
  induction f generalizing parent prev with
  | nil => simp [Forest.order] at hp
  | cons id below behind ihBelow ihBehind =>
      obtain ⟨hid, hbelow, hbehind⟩ := h
      obtain ⟨⟨-, hidBehind⟩, hnodupBelow, hnodupBehind, -⟩ := Forest.nodup_order_cons.mp hnodup
      rcases Forest.mem_order_cons.mp hp with rfl | hp | hp
      · rw [hid, Option.some.injEq] at hpl
        subst hpl
        exact fun hc => hidBehind (Forest.mem_of_first? hc)
      · exact ihBelow hbelow hnodupBelow hp
      · exact ihBehind hbehind hnodupBehind hp

/-! ### Growing -/

/-- A row is threaded behind another node once its first node knows of it. -/
theorem rehead {x : NodeId} (h : t.Threads parent prev f) (hnodup : f.order.Nodup)
    (hfirst : ∀ q, f.first? = some q →
      t'.place? q = (t.place? q).map fun pl => { pl with prev := some x })
    (hother : ∀ q ∈ f.order, f.first? ≠ some q → t'.place? q = t.place? q) :
    t'.Threads parent (some x) f := by
  cases f with
  | nil => trivial
  | cons id below behind =>
      obtain ⟨hid, hbelow, hbehind⟩ := h
      obtain ⟨⟨hidBelow, hidBehind⟩, -, -, -⟩ := Forest.nodup_order_cons.mp hnodup
      refine ⟨?_, hbelow.frame ?_, hbehind.frame ?_⟩
      · rw [hfirst id rfl, hid]
        rfl
      · intro q hq
        refine hother q (by simp [Forest.order, hq]) ?_
        simp only [Forest.first?, ne_eq, Option.some.injEq]
        intro heq
        subst heq
        exact hidBelow hq
      · intro q hq
        refine hother q (by simp [Forest.order, hq]) ?_
        simp only [Forest.first?, ne_eq, Option.some.injEq]
        intro heq
        subst heq
        exact hidBehind hq

/-- A row that a node is put behind: the last one so far and the new one know of each other. -/
theorem push {x : NodeId} (h : t.Threads parent prev f) (hnodup : f.order.Nodup)
    (hx : t'.place? x = some ⟨parent, f.last?.or prev, none, none, none⟩)
    (hlast : ∀ q, f.last? = some q →
      t'.place? q = (t.place? q).map fun pl => { pl with next := some x })
    (hother : ∀ q ∈ f.order, f.last? ≠ some q → t'.place? q = t.place? q) :
    t'.Threads parent prev (f.push x) := by
  induction f generalizing prev with
  | nil => exact ⟨hx, trivial, trivial⟩
  | cons id below behind _ ih =>
      obtain ⟨hid, hbelow, hbehind⟩ := h
      obtain ⟨⟨hidBelow, hidBehind⟩, -, hnodupBehind, hdisjoint⟩ :=
        Forest.nodup_order_cons.mp hnodup
      rw [Forest.last?_cons] at hx hlast
      have hotherBelow : ∀ q ∈ below.order, t'.place? q = t.place? q := by
        intro q hq
        refine hother q (by simp [Forest.order, hq]) ?_
        rw [Forest.last?_cons]
        intro hc
        cases hb : behind.last? with
        | none =>
            rw [hb, Option.none_or, Option.some.injEq] at hc
            exact hidBelow (hc ▸ hq)
        | some q' =>
            rw [hb, Option.some_or, Option.some.injEq] at hc
            exact hdisjoint q hq (Forest.mem_of_last? (hc ▸ hb))
      refine ⟨?_, hbelow.frame hotherBelow, ?_⟩
      · -- The root gets a next one only if nothing stood behind it.
        rw [Forest.first?_push]
        cases hb : behind.last? with
        | none =>
            have hnil : behind = .nil := Forest.last?_eq_none.mp hb
            rw [hlast id (by rw [hb]; rfl), hid, hnil]
            rfl
        | some q =>
            have hne : q ≠ id := fun hc => hidBehind (hc ▸ Forest.mem_of_last? hb)
            have hfirst : behind.first? ≠ none := by
              rw [ne_eq, Forest.first?_eq_none, ← Forest.last?_eq_none, hb]
              simp
            rw [hother id (by simp [Forest.order]) (by rw [Forest.last?_cons, hb]; simpa using hne),
              hid]
            obtain ⟨q', hq'⟩ := Option.ne_none_iff_exists'.mp hfirst
            rw [hq', Option.some_or]
      · refine ih hbehind hnodupBehind ?_ ?_ ?_
        · rw [hx]
          cases behind.last? <;> rfl
        · intro q hq
          exact hlast q (by rw [hq]; rfl)
        · intro q hq hne
          refine hother q (by simp [Forest.order, hq]) ?_
          rw [Forest.last?_cons]
          cases hb : behind.last? with
          | none =>
              rw [Forest.last?_eq_none] at hb
              subst hb
              simp [Forest.order] at hq
          | some q' => simpa [hb] using hne

/-- A node is put behind the children of `p`. -/
theorem adopt {p x : NodeId} {pl : Place} (h : t.Threads parent prev f) (hnodup : f.order.Nodup)
    (hp : p ∈ f.order) (hpl : t.place? p = some pl)
    (hx : t'.place? x = some ⟨some p, pl.lastChild, none, none, none⟩)
    (hparent : t'.place? p =
      some { pl with firstChild := pl.firstChild.or (some x), lastChild := some x })
    (hlast : ∀ q, pl.lastChild = some q →
      t'.place? q = (t.place? q).map fun pl => { pl with next := some x })
    (hother : ∀ q ∈ f.order, q ≠ p → pl.lastChild ≠ some q → t'.place? q = t.place? q) :
    t'.Threads parent prev (f.adopt p x) := by
  have hunder := (h.under hp hpl).2
  induction f generalizing parent prev with
  | nil => simp [Forest.order] at hp
  | cons id below behind ihBelow ihBehind =>
      obtain ⟨hid, hbelow, hbehind⟩ := h
      obtain ⟨⟨hidBelow, hidBehind⟩, hnodupBelow, hnodupBehind, hdisjoint⟩ :=
        Forest.nodup_order_cons.mp hnodup
      have hlastUnder : ∀ q, pl.lastChild = some q →
          q ∈ ((Forest.cons id below behind).under p).order :=
        fun q hq => Forest.mem_of_last? (hunder ▸ hq)
      by_cases hidp : id = p
      · subst hidp
        rw [hid, Option.some.injEq] at hpl
        subst hpl
        simp only [Forest.adopt, if_pos]
        refine ⟨?_, hbelow.push hnodupBelow ?_ hlast ?_, hbehind.frame ?_⟩
        · rw [hparent, Forest.first?_push, Forest.last?_push]
        · rw [hx, Option.or_none]
        · intro q hq hne
          exact hother q (by simp [Forest.order, hq]) (fun hc => hidBelow (hc ▸ hq)) hne
        · intro q hq
          refine hother q (by simp [Forest.order, hq]) (fun hc => hidBehind (hc ▸ hq)) ?_
          intro hc
          exact hdisjoint q (Forest.mem_of_last? hc) hq
      · by_cases hb : p ∈ below.order
        · simp only [Forest.under, if_neg hidp, if_pos hb] at hunder hlastUnder
          simp only [Forest.adopt, if_neg hidp, if_pos hb]
          refine ⟨?_, ihBelow hbelow hnodupBelow hb ?_ hunder, hbehind.frame ?_⟩
          · rw [hother id (by simp [Forest.order]) hidp fun hc =>
              hidBelow (Forest.order_under_subset (hlastUnder id hc)), hid, Forest.first?_adopt,
              Forest.last?_adopt]
          · intro q hq hne hl
            exact hother q (by simp [Forest.order, hq]) hne hl
          · intro q hq
            refine hother q (by simp [Forest.order, hq]) ?_ fun hc =>
              hdisjoint q (Forest.order_under_subset (hlastUnder q hc)) hq
            intro heq
            subst heq
            exact hdisjoint q hb hq
        · have hbh : p ∈ behind.order := Forest.mem_behind hp hidp hb
          simp only [Forest.under, if_neg hidp, if_neg hb] at hunder hlastUnder
          simp only [Forest.adopt, if_neg hidp, if_neg hb]
          refine ⟨?_, hbelow.frame ?_, ihBehind hbehind hnodupBehind hbh ?_ hunder⟩
          · rw [hother id (by simp [Forest.order]) hidp fun hc =>
              hidBehind (Forest.order_under_subset (hlastUnder id hc)), hid, Forest.first?_adopt]
          · intro q hq
            refine hother q (by simp [Forest.order, hq]) ?_ fun hc =>
              hdisjoint q hq (Forest.order_under_subset (hlastUnder q hc))
            intro heq
            subst heq
            exact hb hq
          · intro q hq hne hl
            exact hother q (by simp [Forest.order, hq]) hne hl

/-- A node is put right behind `p`. -/
theorem duplicate {p x : NodeId} {pl : Place} (h : t.Threads parent prev f)
    (hnodup : f.order.Nodup) (habove : ∀ q, parent = some q → q ∉ f.order)
    (hp : p ∈ f.order) (hpl : t.place? p = some pl)
    (hx : t'.place? x = some ⟨pl.parent, some p, pl.next, none, none⟩)
    (hself : t'.place? p = some { pl with next := some x })
    (hnext : ∀ q, pl.next = some q →
      t'.place? q = (t.place? q).map fun pl => { pl with prev := some x })
    (hparent : pl.next = none → ∀ q ∈ f.order, pl.parent = some q →
      t'.place? q = (t.place? q).map fun pl => { pl with lastChild := some x })
    (hother : ∀ q ∈ f.order, q ≠ p → pl.next ≠ some q →
      (pl.next = none → pl.parent ≠ some q) → t'.place? q = t.place? q) :
    t'.Threads parent prev (f.duplicate p x) := by
  induction f generalizing parent prev with
  | nil => simp [Forest.order] at hp
  | cons id below behind ihBelow ihBehind =>
      obtain ⟨hid, hbelow, hbehind⟩ := h
      obtain ⟨⟨hidBelow, hidBehind⟩, hnodupBelow, hnodupBehind, hdisjoint⟩ :=
        Forest.nodup_order_cons.mp hnodup
      by_cases hidp : id = p
      · subst hidp
        rw [hid, Option.some.injEq] at hpl
        subst hpl
        simp only [Forest.duplicate, if_pos]
        refine ⟨hself, hbelow.frame ?_, hx, trivial, hbehind.rehead hnodupBehind hnext ?_⟩
        · intro q hq
          have hmem : q ∈ (Forest.cons id below behind).order := by simp [Forest.order, hq]
          refine hother q hmem (fun hc => hidBelow (hc ▸ hq)) ?_ fun _ hc => habove q hc hmem
          exact fun hc => hdisjoint q hq (Forest.mem_of_first? hc)
        · intro q hq hne
          have hmem : q ∈ (Forest.cons id below behind).order := by simp [Forest.order, hq]
          exact hother q hmem (fun hc => hidBehind (hc ▸ hq)) hne fun _ hc => habove q hc hmem
      · by_cases hb : p ∈ below.order
        · simp only [Forest.duplicate, if_neg hidp, if_pos hb]
          have hidNext : pl.next ≠ some id := fun hc => hidBelow (hbelow.next_mem hb hpl hc)
          have hlast := hbelow.last?_eq_some_iff hidBelow hnodupBelow hb hpl
          refine ⟨?_, ihBelow hbelow hnodupBelow ?_ hb ?_ ?_, hbehind.frame ?_⟩
          · rw [Forest.first?_duplicate, Forest.last?_duplicate x hnodupBelow hb]
            split
            · rename_i hl
              obtain ⟨hn, hpar⟩ := hlast.mp hl
              rw [hparent hn id (by simp [Forest.order]) hpar, hid]
              rfl
            · rename_i hl
              rw [hother id (by simp [Forest.order]) hidp hidNext fun hn hpar =>
                hl (hlast.mpr ⟨hn, hpar⟩), hid]
          · intro q hq
            rw [Option.some.injEq] at hq
            exact hq ▸ hidBelow
          · exact fun hn q hq => hparent hn q (by simp [Forest.order, hq])
          · exact fun q hq => hother q (by simp [Forest.order, hq])
          · intro q hq
            obtain ⟨hne, hn, hpar⟩ := hbelow.links_inside hb hpl (fun hc => hdisjoint q hc hq)
              fun hc => hidBehind (Option.some.inj hc ▸ hq)
            exact hother q (by simp [Forest.order, hq]) hne hn fun _ => hpar
        · have hbh : p ∈ behind.order := Forest.mem_behind hp hidp hb
          -- The links of `p` lead to `behind` or up, so the first tree is left alone.
          have hleft : ∀ q ∈ (Forest.cons id below behind).order, q ∉ behind.order →
              t'.place? q = t.place? q := by
            intro q hq hnot
            obtain ⟨hne, hn, hpar⟩ := hbehind.links_inside hbh hpl hnot fun hc => habove q hc hq
            exact hother q hq hne hn fun _ => hpar
          simp only [Forest.duplicate, if_neg hidp, if_neg hb]
          refine ⟨?_, hbelow.frame ?_, ihBehind hbehind hnodupBehind ?_ hbh ?_ ?_⟩
          · rw [hleft id (by simp [Forest.order]) hidBehind, hid, Forest.first?_duplicate]
          · exact fun q hq => hleft q (by simp [Forest.order, hq]) (hdisjoint q hq)
          · exact fun q hq hc => habove q hq (by simp [Forest.order, hc])
          · exact fun hn q hq => hparent hn q (by simp [Forest.order, hq])
          · exact fun q hq => hother q (by simp [Forest.order, hq])

end Threads

end Timeline

end Chronicle
