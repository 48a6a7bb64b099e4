import Chronicle.Timeline.Basic
import Mathlib.Data.List.Nodup
/-!
The tree behind a timeline.

A timeline stores a tree as links between places of an array.  Here is the tree itself: a
`Forest` is a row of trees, and it is built the way the links lead, from a node to the first one
below it and to the next one behind it.  Its pre-order `order` is the recursive one: a node, all
that is below it, then what is behind it.

Two operations make a forest grow, and both are stated against `order`.  `adopt` puts a node
behind the children of another, `duplicate` puts it right behind another; either way the new node
comes right after the whole subtree of the node that was named (`order_grown`), and nothing before
that moves.
-/

namespace Chronicle

/-- Trees in a row: the first one, as its root and what is below it, and those behind. -/
inductive Forest
  | nil
  | cons (id : NodeId) (below behind : Forest)

namespace Forest

/-- The nodes in pre-order. -/
def order : Forest → List NodeId
  | nil => []
  | cons id below behind => id :: (below.order ++ behind.order)

/-- The first root. -/
def first? : Forest → Option NodeId
  | nil => none
  | cons id _ _ => some id

/-- The last root. -/
def last? : Forest → Option NodeId
  | nil => none
  | cons id _ nil => some id
  | cons _ _ (cons id below behind) => (cons id below behind).last?

/-- The longest way down. -/
def depth : Forest → Nat
  | nil => 0
  | cons _ below behind => max (below.depth + 1) behind.depth

/-- What is below `p`. -/
def under (p : NodeId) : Forest → Forest
  | nil => nil
  | cons id below behind =>
    if id = p then below else if p ∈ below.order then below.under p else behind.under p

/-! ### Growing -/

/-- Put a node behind the last root. -/
def push (x : NodeId) : Forest → Forest
  | nil => cons x nil nil
  | cons id below behind => cons id below (behind.push x)

/-- Put a node behind the children of `p`. -/
def adopt (p x : NodeId) : Forest → Forest
  | nil => nil
  | cons id below behind =>
    if id = p then cons id (below.push x) behind
    else if p ∈ below.order then cons id (below.adopt p x) behind
    else cons id below (behind.adopt p x)

/-- Put a node right behind `p`. -/
def duplicate (p x : NodeId) : Forest → Forest
  | nil => nil
  | cons id below behind =>
    if id = p then cons id below (cons x nil behind)
    else if p ∈ below.order then cons id (below.duplicate p x) behind
    else cons id below (behind.duplicate p x)

attribute [local simp] order last? under push adopt duplicate

theorem mem_order_cons {p id : NodeId} {below behind : Forest} :
    p ∈ (cons id below behind).order ↔ p = id ∨ p ∈ below.order ∨ p ∈ behind.order := by
  simp

theorem mem_behind {p id : NodeId} {below behind : Forest}
    (h : p ∈ (cons id below behind).order) (hid : ¬id = p) (hbelow : p ∉ below.order) :
    p ∈ behind.order := by
  rcases mem_order_cons.mp h with h | h | h
  · exact absurd h.symm hid
  · exact absurd h hbelow
  · exact h

/-- The pre-order repeats nothing: neither in its parts nor from one part to another. -/
theorem nodup_order_cons {id : NodeId} {below behind : Forest} :
    (cons id below behind).order.Nodup ↔
      (id ∉ below.order ∧ id ∉ behind.order) ∧ below.order.Nodup ∧ behind.order.Nodup ∧
        ∀ q ∈ below.order, q ∉ behind.order := by
  simp only [order, List.nodup_cons, List.mem_append, not_or, List.nodup_append]
  constructor
  · intro h
    obtain ⟨hid, hbelow, hbehind, hne⟩ := h
    exact ⟨hid, hbelow, hbehind, fun q hq hq' => hne q hq q hq' rfl⟩
  · intro h
    obtain ⟨hid, hbelow, hbehind, hne⟩ := h
    refine ⟨hid, hbelow, hbehind, ?_⟩
    intro q hq q' hq' heq
    subst heq
    exact hne q hq hq'

/-! ### The ends of a row -/

@[simp] theorem first?_eq_none {f : Forest} : f.first? = none ↔ f = nil := by
  cases f <;> simp [first?]

theorem first?_eq_head? (f : Forest) : f.first? = f.order.head? := by
  cases f <;> rfl

theorem last?_cons (id : NodeId) (below behind : Forest) :
    (cons id below behind).last? = behind.last?.or (some id) := by
  cases behind with
  | nil => rfl
  | cons id' below' behind' =>
      have h : ∀ f : Forest, ∀ i b, ∃ last, (cons i b f).last? = some last := by
        intro f
        induction f with
        | nil => intro i b; exact ⟨i, rfl⟩
        | cons i' b' f' _ ih => intro i b; exact ih i' b'
      obtain ⟨last, hlast⟩ := h behind' id' below'
      show (cons id' below' behind').last? = _
      rw [hlast]
      rfl

@[simp] theorem last?_eq_none {f : Forest} : f.last? = none ↔ f = nil := by
  cases f <;> simp [last?_cons]

theorem mem_of_last? {f : Forest} {q : NodeId} (h : f.last? = some q) : q ∈ f.order := by
  induction f with
  | nil => simp at h
  | cons id below behind _ ih =>
      rw [last?_cons] at h
      cases hlast : behind.last? with
      | none =>
          rw [hlast] at h
          simp only [Option.none_or, Option.some.injEq] at h
          simp [h]
      | some q' =>
          rw [hlast] at h
          simp only [Option.some_or, Option.some.injEq] at h
          subst h
          simp [ih hlast]

theorem mem_of_first? {f : Forest} {q : NodeId} (h : f.first? = some q) : q ∈ f.order := by
  rw [first?_eq_head?] at h
  exact List.mem_of_head? h

theorem depth_le_length (f : Forest) : f.depth ≤ f.order.length := by
  induction f with
  | nil => exact Nat.le_refl _
  | cons id below behind ihBelow ihBehind =>
      simp only [depth, order, List.length_cons, List.length_append]
      omega

theorem order_under_subset {p q : NodeId} {f : Forest} (h : q ∈ (f.under p).order) :
    q ∈ f.order := by
  induction f with
  | nil => simp at h
  | cons id below behind ihBelow ihBehind =>
      simp only [under] at h
      simp only [order, List.mem_cons, List.mem_append]
      split at h
      · exact Or.inr (Or.inl h)
      · split at h
        · exact Or.inr (Or.inl (ihBelow h))
        · exact Or.inr (Or.inr (ihBehind h))

/-- No node stands under itself. -/
theorem not_mem_under {p : NodeId} {f : Forest} (hnodup : f.order.Nodup) :
    p ∉ (f.under p).order := by
  induction f with
  | nil => simp
  | cons id below behind ihBelow ihBehind =>
      obtain ⟨⟨hid, -⟩, hbelow, hbehind, -⟩ := nodup_order_cons.mp hnodup
      simp only [under]
      split
      · rename_i hp
        exact hp ▸ hid
      · split
        · exact ihBelow hbelow
        · exact ihBehind hbehind

/-! ### The order of a forest that grows -/

theorem order_push (x : NodeId) (f : Forest) : (f.push x).order = f.order ++ [x] := by
  induction f with
  | nil => rfl
  | cons id below behind _ ih => simp [ih]

theorem first?_push (x : NodeId) (f : Forest) : (f.push x).first? = f.first?.or (some x) := by
  cases f <;> rfl

theorem last?_push (x : NodeId) (f : Forest) : (f.push x).last? = some x := by
  induction f with
  | nil => rfl
  | cons id below behind _ ih => rw [push, last?_cons, ih, Option.some_or]

/-- The whole subtree of a node stands in one piece, right behind the node. -/
theorem order_split {p : NodeId} {f : Forest} (h : p ∈ f.order) :
    ∃ before later, f.order = before ++ p :: ((f.under p).order ++ later) ∧
      (∀ x, (f.adopt p x).order = before ++ p :: ((f.under p).order ++ x :: later)) ∧
      ∀ x, (f.duplicate p x).order = before ++ p :: ((f.under p).order ++ x :: later) := by
  induction f with
  | nil => simp at h
  | cons id below behind ihBelow ihBehind =>
      by_cases hid : id = p
      · subst hid
        refine ⟨[], behind.order, ?_, ?_, ?_⟩ <;> simp [order_push]
      · by_cases hbelow : p ∈ below.order
        · obtain ⟨before, later, horder, hadopt, hdup⟩ := ihBelow hbelow
          refine ⟨id :: before, later ++ behind.order, ?_, ?_, ?_⟩
          · simp only [order, under, if_neg hid, if_pos hbelow]
            rw [horder]
            simp
          · intro x
            simp [hid, hbelow, hadopt]
          · intro x
            simp [hid, hbelow, hdup]
        · have hbehind : p ∈ behind.order := mem_behind h hid hbelow
          obtain ⟨before, later, horder, hadopt, hdup⟩ := ihBehind hbehind
          refine ⟨id :: (below.order ++ before), later, ?_, ?_, ?_⟩
          · simp only [order, under, if_neg hid, if_neg hbelow]
            rw [horder]
            simp
          · intro x
            simp [hid, hbelow, hadopt]
          · intro x
            simp [hid, hbelow, hdup]

/-- Where the new node stands, told from where the subtree of `p` ends. -/
theorem order_grown {p : NodeId} (x : NodeId) {f : Forest} {before later : List NodeId}
    (hnodup : f.order.Nodup) (h : f.order = before ++ p :: ((f.under p).order ++ later)) :
    (f.adopt p x).order = before ++ p :: ((f.under p).order ++ x :: later) ∧
      (f.duplicate p x).order = before ++ p :: ((f.under p).order ++ x :: later) := by
  have hmem : p ∈ f.order := by simp [h]
  obtain ⟨before', later', horder, hadopt, hdup⟩ := order_split hmem
  have hsame : before' = before ∧ (f.under p).order ++ later' = (f.under p).order ++ later := by
    rw [h] at horder hnodup
    simp only [List.nodup_append, List.nodup_cons] at hnodup
    rw [List.append_cons_inj_of_notMem] at horder
    · exact ⟨horder.1.symm, horder.2.2.symm⟩
    · exact fun hc => hnodup.2.2 p hc p List.mem_cons_self rfl
    · exact hnodup.2.1.1
  obtain ⟨rfl, hlater⟩ := hsame
  obtain rfl := List.append_cancel_left hlater
  exact ⟨hadopt x, hdup x⟩

/-- Either way of growing adds the new node and nothing else. -/
theorem perm_order_grown {p : NodeId} (x : NodeId) {f : Forest} (h : p ∈ f.order) :
    (f.adopt p x).order.Perm (x :: f.order) ∧ (f.duplicate p x).order.Perm (x :: f.order) := by
  obtain ⟨before, later, horder, hadopt, hdup⟩ := order_split h
  have hmove : (before ++ p :: ((f.under p).order ++ x :: later)).Perm (x :: f.order) := by
    rw [horder]
    have hmiddle : ((before ++ p :: (f.under p).order) ++ x :: later).Perm
        (x :: ((before ++ p :: (f.under p).order) ++ later)) := List.perm_middle
    simpa using hmiddle
  exact ⟨hadopt x ▸ hmove, hdup x ▸ hmove⟩

theorem first?_adopt (p x : NodeId) (f : Forest) : (f.adopt p x).first? = f.first? := by
  cases f with
  | nil => rfl
  | cons id below behind =>
      simp only [adopt]
      split
      · rfl
      · split <;> rfl

theorem first?_duplicate (p x : NodeId) (f : Forest) : (f.duplicate p x).first? = f.first? := by
  cases f with
  | nil => rfl
  | cons id below behind =>
      simp only [duplicate]
      split
      · rfl
      · split <;> rfl

theorem last?_adopt (p x : NodeId) (f : Forest) : (f.adopt p x).last? = f.last? := by
  induction f with
  | nil => rfl
  | cons id below behind _ ih =>
      simp only [adopt]
      split
      · simp only [last?_cons]
      · split
        · simp only [last?_cons]
        · simp only [last?_cons, ih]

/-- The new node is the last root exactly if it was put behind the last one. -/
theorem last?_duplicate {p : NodeId} (x : NodeId) {f : Forest} (hnodup : f.order.Nodup)
    (h : p ∈ f.order) :
    (f.duplicate p x).last? = if f.last? = some p then some x else f.last? := by
  induction f with
  | nil => simp at h
  | cons id below behind _ ih =>
      obtain ⟨⟨-, hid⟩, -, hbehindNodup, hdisjoint⟩ := nodup_order_cons.mp hnodup
      by_cases hp : id = p
      · subst hp
        simp only [duplicate, if_pos, last?_cons]
        cases hlast : behind.last? with
        | none => simp
        | some q =>
            have hne : q ≠ id := by
              intro heq
              subst heq
              exact hid (mem_of_last? hlast)
            simp [hne]
      · by_cases hbelow : p ∈ below.order
        · simp only [duplicate, if_neg hp, if_pos hbelow, last?_cons]
          cases hlast : behind.last? with
          | none => simp [hp]
          | some q =>
              have hne : q ≠ p := by
                intro heq
                subst heq
                exact hdisjoint q hbelow (mem_of_last? hlast)
              simp [hne]
        · have hbehind : p ∈ behind.order := mem_behind h hp hbelow
          simp only [duplicate, if_neg hp, if_neg hbelow, last?_cons, ih hbehindNodup hbehind]
          cases hlast : behind.last? with
          | none =>
              rw [last?_eq_none] at hlast
              subst hlast
              simp at hbehind
          | some q => by_cases hqp : q = p <;> simp [hqp]

theorem under_adopt_self {p : NodeId} (x : NodeId) {f : Forest} (h : p ∈ f.order) :
    (f.adopt p x).under p = (f.under p).push x := by
  induction f with
  | nil => simp at h
  | cons id below behind ihBelow ihBehind =>
      by_cases hid : id = p
      · simp [hid]
      · by_cases hbelow : p ∈ below.order
        · have hmem : p ∈ (below.adopt p x).order := by
            obtain ⟨before, later, -, hadopt, -⟩ := order_split hbelow
            simp [hadopt]
          simp [hid, hbelow, hmem, ihBelow hbelow]
        · have hbehind : p ∈ behind.order := mem_behind h hid hbelow
          simp [hid, hbelow, ihBehind hbehind]

end Forest

end Chronicle
