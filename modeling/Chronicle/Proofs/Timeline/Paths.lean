import Chronicle.Proofs.Timeline.Rows
/-!
Positions in a tree.

The path of a node is the list of its places, from the top row down: one-based among its siblings
at every level (`Forest.path`, counted from any first place).  Paths grow strictly along the
pre-order when they are compared place by place (`Forest.path_increasing`), so a node is before
another one exactly if its path is less.

Growth leaves paths alone.  A new last child changes no path at all.  A copy moves its later
siblings by one place, together with all that is below them; the node that is copied and whatever
comes before it keep their paths (`Forest.path_duplicate`).
-/

namespace Chronicle

namespace Forest

/-- The places that lead to `p`, the first tree of the row being at place `k`. -/
def path (k : Nat) (p : NodeId) : Forest → List Nat
  | nil => []
  | cons id below behind =>
    if id = p then [k]
    else if p ∈ below.order then k :: below.path 1 p
    else behind.path (k + 1) p

section

variable {k : Nat} {p id : NodeId} {below behind : Forest}

theorem path_root : (cons id below behind).path k id = [k] := if_pos rfl

theorem path_below (hid : id ≠ p) (hp : p ∈ below.order) :
    (cons id below behind).path k p = k :: below.path 1 p := by
  rw [path, if_neg hid, if_pos hp]

theorem path_behind (hid : id ≠ p) (hp : p ∉ below.order) :
    (cons id below behind).path k p = behind.path (k + 1) p := by
  rw [path, if_neg hid, if_neg hp]

/-- In a tree without repetition it is enough to know where a node is. -/
theorem path_of_mem (hnodup : (cons id below behind).order.Nodup) :
    (∀ q ∈ below.order, (cons id below behind).path k q = k :: below.path 1 q) ∧
      ∀ q ∈ behind.order, (cons id below behind).path k q = behind.path (k + 1) q := by
  obtain ⟨⟨hidBelow, hidBehind⟩, -, -, hdisjoint⟩ := nodup_order_cons.mp hnodup
  refine ⟨fun q hq => path_below (fun hc => hidBelow (hc ▸ hq)) hq, fun q hq => ?_⟩
  exact path_behind (fun hc => hidBehind (hc ▸ hq)) fun hc => hdisjoint q hc hq

/-- A path starts in the row, at a place that is counted. -/
theorem exists_path_eq_cons {f : Forest} (hp : p ∈ f.order) :
    ∃ place rest, f.path k p = place :: rest ∧ k ≤ place := by
  induction f generalizing k with
  | nil => simp [order] at hp
  | cons id below behind _ ihBehind =>
      by_cases hid : id = p
      · exact ⟨k, [], by rw [hid, path_root], Nat.le_refl k⟩
      · by_cases hb : p ∈ below.order
        · exact ⟨k, _, path_below hid hb, Nat.le_refl k⟩
        · obtain ⟨place, rest, hpath, hle⟩ := ihBehind (k := k + 1) (mem_behind hp hid hb)
          exact ⟨place, rest, (path_behind hid hb).trans hpath, by omega⟩

end

/-- **Paths increase strictly along the pre-order.** -/
theorem path_increasing {f : Forest} (hnodup : f.order.Nodup) (k : Nat) :
    f.order.Pairwise fun p q => f.path k p < f.path k q := by
  induction f generalizing k with
  | nil => exact .nil
  | cons id below behind ihBelow ihBehind =>
      obtain ⟨-, hnodupBelow, hnodupBehind, -⟩ := nodup_order_cons.mp hnodup
      obtain ⟨hbelow, hbehind⟩ := path_of_mem (k := k) hnodup
      refine List.pairwise_cons.mpr ⟨fun q hq => ?_, List.pairwise_append.mpr ⟨?_, ?_, ?_⟩⟩
      · rw [path_root]
        rcases List.mem_append.mp hq with hq | hq
        · obtain ⟨place, rest, hpath, -⟩ := exists_path_eq_cons (k := 1) hq
          rw [hbelow q hq, hpath]
          simp
        · obtain ⟨place, rest, hpath, hle⟩ := exists_path_eq_cons (k := k + 1) hq
          rw [hbehind q hq, hpath, List.cons_lt_cons_iff]
          exact Or.inl hle
      · refine (ihBelow hnodupBelow 1).imp_of_mem fun {p q} hp hq hlt => ?_
        rw [hbelow p hp, hbelow q hq, List.cons_lt_cons_iff]
        exact Or.inr ⟨rfl, hlt⟩
      · refine (ihBehind hnodupBehind (k + 1)).imp_of_mem fun {p q} hp hq hlt => ?_
        rwa [hbehind p hp, hbehind q hq]
      · intro p hp q hq
        obtain ⟨place, rest, hpath, hle⟩ := exists_path_eq_cons (k := k + 1) hq
        rw [hbelow p hp, hbehind q hq, hpath, List.cons_lt_cons_iff]
        exact Or.inl hle

/-! ### Growing -/

theorem mem_order_adopt {c x q : NodeId} {f : Forest} (hc : c ∈ f.order) (hq : q ≠ x) :
    q ∈ (f.adopt c x).order ↔ q ∈ f.order := by
  rw [(perm_order_grown x hc).1.mem_iff, List.mem_cons, or_iff_right hq]

theorem mem_order_duplicate {c x q : NodeId} {f : Forest} (hc : c ∈ f.order) (hq : q ≠ x) :
    q ∈ (f.duplicate c x).order ↔ q ∈ f.order := by
  rw [(perm_order_grown x hc).2.mem_iff, List.mem_cons, or_iff_right hq]

theorem path_push {x p : NodeId} {f : Forest} (hp : p ∈ f.order) (k : Nat) :
    (f.push x).path k p = f.path k p := by
  induction f generalizing k with
  | nil => simp [order] at hp
  | cons id below behind _ ih =>
      by_cases hid : id = p
      · simp [push, path, hid]
      · by_cases hb : p ∈ below.order
        · simp [push, path, hid, hb]
        · simp [push, path, hid, hb, ih (mem_behind hp hid hb)]

/-- A new last child leaves every path as it was. -/
theorem path_adopt {c x p : NodeId} {f : Forest} (hp : p ∈ f.order) (hx : p ≠ x) (k : Nat) :
    (f.adopt c x).path k p = f.path k p := by
  induction f generalizing k with
  | nil => simp [order] at hp
  | cons id below behind ihBelow ihBehind =>
      by_cases hid : id = p
      · subst hid
        simp only [adopt]
        split
        · simp only [path_root]
        · split <;> simp only [path_root]
      · by_cases hidc : id = c
        · have hmem : p ∈ (below.push x).order ↔ p ∈ below.order := by
            simp [order_push, hx]
          simp only [adopt, if_pos hidc, path, if_neg hid, hmem]
          split
          · next hb => rw [path_push hb]
          · rfl
        · by_cases hc : c ∈ below.order
          · simp only [adopt, if_neg hidc, if_pos hc, path, if_neg hid, mem_order_adopt hc hx]
            split
            · next hb => rw [ihBelow hb]
            · rfl
          · simp only [adopt, if_neg hidc, if_neg hc, path, if_neg hid]
            split
            · rfl
            · next hb => rw [ihBehind (mem_behind hp hid hb)]

/-- A copy leaves the path of its original as it was, and every path that is not greater. -/
theorem path_duplicate {c x p : NodeId} {f : Forest} (hp : p ∈ f.order) (hx : p ≠ x)
    (hc : c ∈ f.order) {k : Nat} (hle : ¬f.path k c < f.path k p) :
    (f.duplicate c x).path k p = f.path k p := by
  induction f generalizing k with
  | nil => simp [order] at hp
  | cons id below behind ihBelow ihBehind =>
      by_cases hid : id = p
      · subst hid
        simp only [duplicate]
        split
        · simp only [path_root]
        · split <;> simp only [path_root]
      · by_cases hidc : id = c
        · -- Nothing below or behind the node itself has a path that is not greater.
          subst hidc
          rw [path_root] at hle
          refine absurd ?_ hle
          by_cases hb : p ∈ below.order
          · obtain ⟨place, rest, hpath, -⟩ := exists_path_eq_cons (k := 1) hb
            rw [path_below hid hb, hpath]
            simp
          · obtain ⟨place, rest, hpath, hplace⟩ :=
              exists_path_eq_cons (k := k + 1) (mem_behind hp hid hb)
            rw [path_behind hid hb, hpath, List.cons_lt_cons_iff]
            exact Or.inl hplace
        · by_cases hcb : c ∈ below.order
          · simp only [duplicate, if_neg hidc, if_pos hcb, path, if_neg hid,
              mem_order_duplicate hcb hx]
            split
            · next hb =>
                rw [path_below hidc hcb, path_below hid hb, List.cons_lt_cons_iff] at hle
                rw [ihBelow hb hcb fun hlt => hle (Or.inr ⟨rfl, hlt⟩)]
            · rfl
          · simp only [duplicate, if_neg hidc, if_neg hcb, path, if_neg hid]
            split
            · rfl
            · next hb =>
                rw [path_behind hidc hcb, path_behind hid hb] at hle
                rw [ihBehind (mem_behind hp hid hb) (mem_behind hc hidc hcb) hle]

end Forest

end Chronicle
