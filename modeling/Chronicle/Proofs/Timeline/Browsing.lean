import Chronicle.Proofs.Timeline.Labelled
import Chronicle.Proofs.Timeline.Siblings
import Chronicle.Timeline.Cursor
/-!
Walking over a timeline with a cursor.

Every move looks for a target and goes there if it is another node (`Move.apply_eq`).  A target is
always a node, and not the root (`target_mem`), so the cursor never comes to the root.  Forward and
to the next sibling the targets come later in the chronological order, backward and to the previous
sibling earlier; the index in the order is what ends any repetition of these moves
(`exists_exhausts`).
-/

namespace Chronicle

/-- Between two members of a list that come in this order, the first has the lesser index. -/
theorem idxOf_lt_of_eq_append {α : Type} [BEq α] [LawfulBEq α] {l front mid later : List α}
    {x y : α} (hnodup : l.Nodup) (h : l = front ++ x :: (mid ++ y :: later)) :
    l.idxOf x < l.idxOf y := by
  subst h
  obtain ⟨-, htail, hdisjoint⟩ := List.nodup_append.mp hnodup
  obtain ⟨hx, -⟩ := List.nodup_cons.mp htail
  have hy : y ∈ mid ++ y :: later := by simp
  have hne : x ≠ y := fun hc => hx (hc ▸ hy)
  have hxFront : x ∉ front := fun hc => hdisjoint x hc x List.mem_cons_self rfl
  have hyFront : y ∉ front := fun hc => hdisjoint y hc y (List.mem_cons_of_mem _ hy) rfl
  rw [List.idxOf_append_of_notMem hxFront, List.idxOf_append_of_notMem hyFront,
    List.idxOf_cons_self, List.idxOf_cons_ne _ hne]
  omega

namespace Cursor

variable {P : Type} {t : Timeline P} {f : Forest} {c c' : Cursor} {x y : NodeId}

/-- The ways to move a cursor. -/
inductive Move
  | forward
  | backward
  | next
  | prev
  | start
  | stop
  | jump (label : String)
deriving DecidableEq

def Move.apply (t : Timeline P) (c : Cursor) : Move → Bool × Cursor
  | forward => c.goForward t
  | backward => c.goBackward t
  | next => c.goNext t
  | prev => c.goPrev t
  | start => c.goStart t
  | stop => c.goEnd t
  | jump label => c.jump t label

/-- The cursors that some moves lead to from the first step on. -/
inductive Browsed (t : Timeline P) : Cursor → Prop
  | opening : Browsed t (ofTimeline t)
  | move {c : Cursor} (h : Browsed t c) (m : Move) : Browsed t (m.apply t c).2

/-- The move is made as long as it changes the step: where that leads, and how it ends. -/
inductive Exhausts (t : Timeline P) (m : Move) : Cursor → List Cursor → Cursor → Prop
  | stop {c : Cursor} (h : m.apply t c = (false, c)) : Exhausts t m c [] c
  | move {c c' last : Cursor} {trail : List Cursor} (h : m.apply t c = (true, c'))
      (rest : Exhausts t m c' trail last) : Exhausts t m c (c' :: trail) last

/-! ### Targets -/

/-- Where a move leads from a node, if anywhere. -/
def Move.target (t : Timeline P) (x : NodeId) : Move → Option NodeId
  | forward => t.after x
  | backward => (t.before x).filter (· ≠ Timeline.root)
  | next => ((t.node? x).bind (·.next)).or (t.after x)
  | prev => ((t.node? x).bind (·.prev)).or ((t.before x).filter (· ≠ Timeline.root))
  | start => firstStep? t
  | stop => (t.node? Timeline.root).bind (·.lastChild)
  | jump label => t.findByLabel label

theorem Move.apply_eq (t : Timeline P) (c : Cursor) (m : Move) :
    m.apply t c = c.moveTo (m.target t c.active) := by
  cases m with
  | next =>
      show goNext t c = _
      rw [goNext, target]
      cases (t.node? c.active).bind (·.next) <;> rfl
  | prev =>
      show goPrev t c = _
      rw [goPrev, target]
      cases (t.node? c.active).bind (·.prev) <;> rfl
  | _ => rfl

theorem moveTo_eq_true_iff {target : Option NodeId} :
    c.moveTo target = (true, c') ↔ target = some c'.active ∧ c'.active ≠ c.active := by
  cases target with
  | none => simp [moveTo]
  | some id =>
      by_cases h : id = c.active
      · rw [moveTo, if_pos h]
        refine ⟨fun hc => by simp at hc, fun hc => ?_⟩
        rw [Option.some.injEq] at hc
        exact absurd (hc.1.symm.trans h) hc.2
      · rw [moveTo, if_neg h, Prod.mk.injEq, Option.some.injEq]
        constructor
        · intro hc
          obtain ⟨-, rfl⟩ := hc
          exact ⟨rfl, h⟩
        · intro hc
          obtain ⟨rfl, -⟩ := hc
          exact ⟨rfl, rfl⟩

theorem moveTo_eq_false_iff {target : Option NodeId} :
    c.moveTo target = (false, c) ↔ ∀ y, target = some y → y = c.active := by
  cases target with
  | none => simp [moveTo]
  | some id => by_cases h : id = c.active <;> simp [moveTo, h]

/-- Wherever a cursor is, it gets to its target. -/
theorem moveTo_snd (c : Cursor) (id : NodeId) : (c.moveTo (some id)).2 = ⟨id⟩ := by
  rw [moveTo]
  split
  · next heq => rw [heq]
  · rfl

/-- A move goes to another step, or leaves the cursor where it is. -/
theorem Move.apply_cases (t : Timeline P) (m : Move) (c : Cursor) :
    (∃ c', m.apply t c = (true, c') ∧ m.target t c.active = some c'.active ∧
        c'.active ≠ c.active) ∨ m.apply t c = (false, c) := by
  rw [m.apply_eq]
  by_cases h : ∀ y, m.target t c.active = some y → y = c.active
  · exact .inr (moveTo_eq_false_iff.mpr h)
  · simp only [not_forall] at h
    obtain ⟨y, hy, hne⟩ := h
    exact .inl ⟨⟨y⟩, moveTo_eq_true_iff.mpr ⟨hy, hne⟩, hy, hne⟩

/-- The answer of a move tells whether the step is another one. -/
theorem Move.apply_changed (t : Timeline P) (m : Move) (c : Cursor) :
    (m.apply t c).1 = true ↔ (m.apply t c).2.active ≠ c.active := by
  rcases m.apply_cases t c with ⟨c', happly, -, hne⟩ | happly
  · rw [happly]
    exact ⟨fun _ => hne, fun _ => rfl⟩
  · rw [happly]
    constructor
    · intro h
      cases h
    · intro h
      exact absurd rfl h

section

variable {begun rest : List NodeId}

/-! ### The tree below the cursor -/

/-- Where the root links to. -/
theorem exists_row (h : t.Shape f) : ∃ below, f = .cons Timeline.root below .nil ∧
    (∃ n, t.node? Timeline.root = some n ∧ n.next = none) ∧
    firstStep? t = below.order.head? ∧
    (t.node? Timeline.root).bind (·.lastChild) = below.last? ∧
    t.children Timeline.root = below.roots := by
  obtain ⟨below, rfl⟩ := h.root
  obtain ⟨hplace, -⟩ := h.threads
  obtain ⟨n, hn, hpl⟩ := Option.map_eq_some_iff.mp hplace
  have hchildren := (h.children_eq List.mem_cons_self).2
  rw [Forest.under, if_pos rfl] at hchildren
  refine ⟨below, rfl, ⟨n, hn, congrArg Place.next hpl⟩, ?_, ?_, hchildren⟩
  · rw [firstStep?, hn, ← Forest.first?_eq_head?]
    exact congrArg Place.firstChild hpl
  · rw [hn]
    exact congrArg Place.lastChild hpl

theorem after_later (h : t.Shape f) (hafter : t.after x = some y) :
    f.order.idxOf x < f.order.idxOf y := by
  obtain ⟨front, later, horder⟩ := List.append_of_mem (h.mem_of_walk (.inl hafter))
  rw [h.after_eq horder] at hafter
  obtain ⟨later, rfl⟩ := List.head?_eq_some_iff.mp hafter
  have hsplit : f.order = front ++ x :: ([] ++ y :: later) := horder
  exact idxOf_lt_of_eq_append h.nodup hsplit

theorem next_later (h : t.Shape f) {n : Node P} (hn : t.node? x = some n)
    (hnext : n.next = some y) : f.order.idxOf x < f.order.idxOf y := by
  obtain ⟨front, later, horder⟩ := h.order_next hn hnext
  exact idxOf_lt_of_eq_append h.nodup horder

/-- What comes later than another node is not the root. -/
theorem ne_root_of_later (h : t.Shape f) (hlater : f.order.idxOf x < f.order.idxOf y) :
    y ≠ Timeline.root := by
  intro hroot
  subst hroot
  obtain ⟨later, horder⟩ := List.head?_eq_some_iff.mp h.head?_order
  rw [horder, List.idxOf_cons_self] at hlater
  exact absurd hlater (Nat.not_lt_zero _)

/-! ### Where the moves lead -/

/-- Forward and to the next sibling the targets come later. -/
theorem target_later (h : t.Shape f) {m : Move} (hm : m ∈ [Move.forward, .next])
    (htarget : m.target t x = some y) : f.order.idxOf x < f.order.idxOf y := by
  obtain rfl | rfl : m = .forward ∨ m = .next := by simpa using hm
  · exact after_later h htarget
  · rcases Option.or_eq_some_iff.mp htarget with hnext | ⟨-, hafter⟩
    · obtain ⟨n, hn, hnext⟩ := Option.bind_eq_some_iff.mp hnext
      exact next_later h hn hnext
    · exact after_later h hafter

/-- Backward and to the previous sibling they come earlier. -/
theorem target_earlier (h : t.Shape f) {m : Move} (hm : m ∈ [Move.backward, .prev])
    (htarget : m.target t x = some y) : f.order.idxOf y < f.order.idxOf x := by
  have hback : (t.before x).filter (· ≠ Timeline.root) = some y →
      f.order.idxOf y < f.order.idxOf x := by
    intro hbefore
    exact after_later h (h.after_eq_some_iff.mpr (Option.filter_eq_some_iff.mp hbefore).1)
  obtain rfl | rfl : m = .backward ∨ m = .prev := by simpa using hm
  · exact hback htarget
  · rcases Option.or_eq_some_iff.mp htarget with hprev | ⟨-, hbefore⟩
    · obtain ⟨n, hn, hprev⟩ := Option.bind_eq_some_iff.mp hprev
      obtain ⟨n', hn', hnext⟩ := h.next_of_prev hn hprev
      exact next_later h hn' hnext
    · exact hback hbefore

/-- **A target is a node, and not the root.** -/
theorem target_mem (hlabelled : t.Labelled begun rest) (h : t.Shape f) {m : Move}
    (htarget : m.target t x = some y) : y ∈ f.order ∧ y ≠ Timeline.root := by
  have hafter : t.after x = some y → y ∈ f.order ∧ y ≠ Timeline.root := fun hafter =>
    ⟨h.mem_of_walk (.inr (h.after_eq_some_iff.mp hafter)), ne_root_of_later h (after_later h hafter)⟩
  have hbefore : (t.before x).filter (· ≠ Timeline.root) = some y →
      y ∈ f.order ∧ y ≠ Timeline.root := by
    intro hbefore
    obtain ⟨hbefore, hne⟩ := Option.filter_eq_some_iff.mp hbefore
    exact ⟨h.mem_of_walk (.inl (h.after_eq_some_iff.mpr hbefore)), of_decide_eq_true hne⟩
  obtain ⟨below, rfl, ⟨n₀, hn₀, hnone⟩, hfirst, hlast, -⟩ := exists_row h
  have hrow : ∀ z ∈ below.order, z ∈ (Forest.cons Timeline.root below .nil).order ∧
      z ≠ Timeline.root := by
    intro z hz
    refine ⟨Forest.mem_order_cons.mpr (.inr (.inl hz)), fun hc => ?_⟩
    exact (Forest.nodup_order_cons.mp h.nodup).1.1 (hc ▸ hz)
  cases m with
  | forward => exact hafter htarget
  | backward => exact hbefore htarget
  | next =>
      rcases Option.or_eq_some_iff.mp htarget with hnext | ⟨-, hwalk⟩
      · obtain ⟨n, hn, hnext⟩ := Option.bind_eq_some_iff.mp hnext
        obtain ⟨front, later, horder⟩ := h.order_next hn hnext
        exact ⟨by simp [horder], ne_root_of_later h (next_later h hn hnext)⟩
      · exact hafter hwalk
  | prev =>
      rcases Option.or_eq_some_iff.mp htarget with hprev | ⟨-, hwalk⟩
      · obtain ⟨n, hn, hprev⟩ := Option.bind_eq_some_iff.mp hprev
        obtain ⟨n', hn', hnext⟩ := h.next_of_prev hn hprev
        refine ⟨h.mem_iff.mpr ⟨n', hn'⟩, fun hc => ?_⟩
        -- The root has no next sibling.
        subst hc
        rw [hn₀, Option.some.injEq] at hn'
        rw [← hn', hnone] at hnext
        cases hnext
      · exact hbefore hwalk
  | start => exact hrow y (List.mem_of_head? (hfirst ▸ htarget))
  | stop => exact hrow y (Forest.mem_of_last? (hlast ▸ htarget))
  | jump label =>
      have hspec := t.findByLabel_spec label
      rw [show t.findByLabel label = some y from htarget] at hspec
      obtain ⟨n, hn, hlabel, -⟩ := hspec
      refine ⟨h.mem_iff.mpr ⟨n, hn⟩, fun hc => hlabel ?_⟩
      exact (hlabelled.label_eq_root_iff hn (hlabelled.mem_begun hn (.inl hlabel))).mpr hc

/-! ### Where a cursor can be -/

/-- The cursor is on a node, and not on the root if there is anything else. -/
def OnStep (t : Timeline P) (c : Cursor) : Prop :=
  (∃ n, t.node? c.active = some n) ∧ (c.active = Timeline.root → t.children Timeline.root = [])

/-- **Wherever a cursor is moved, it is on a step.** -/
theorem Browsed.onStep (hlabelled : t.Labelled begun rest) (hc : Browsed t c) : OnStep t c := by
  obtain ⟨f, h, -⟩ := hlabelled.layout
  induction hc with
  | opening =>
      obtain ⟨below, rfl, ⟨n₀, hn₀, -⟩, hfirst, -, hchildren⟩ := exists_row h
      cases below with
      | nil =>
          refine ⟨⟨n₀, ?_⟩, fun _ => hchildren⟩
          rw [ofTimeline, hfirst]
          exact hn₀
      | cons id below behind =>
          have htarget : Move.target t Timeline.root .start = some id := hfirst
          obtain ⟨hmem, hne⟩ := target_mem hlabelled h htarget
          rw [ofTimeline, hfirst]
          exact ⟨h.mem_iff.mp hmem, fun hc => absurd hc hne⟩
  | @move c hc m ih =>
      rcases m.apply_cases t c with ⟨c', happly, htarget, -⟩ | happly
      · obtain ⟨hmem, hne⟩ := target_mem hlabelled h htarget
        rw [happly]
        exact ⟨h.mem_iff.mp hmem, fun hc => absurd hc hne⟩
      · rw [happly]
        exact ih

/-! ### Repeating a move -/

/-- A move that lowers a measure cannot be made for ever. -/
theorem exists_exhausts {m : Move} (measure : Cursor → Nat)
    (hlower : ∀ c c', m.apply t c = (true, c') → measure c' < measure c) (c : Cursor) :
    ∃ trail last, Exhausts t m c trail last := by
  induction hbound : measure c using Nat.strongRecOn generalizing c with
  | ind bound ih =>
      rcases m.apply_cases t c with ⟨c', happly, -⟩ | happly
      · obtain ⟨trail, last, hrest⟩ := ih _ (hbound ▸ hlower c c' happly) c' rfl
        exact ⟨c' :: trail, last, .move happly hrest⟩
      · exact ⟨[], c, .stop happly⟩

/-- The moves forward and backward, and to the siblings, end at last. -/
theorem exists_exhausts_of_mem (h : t.Shape f) {m : Move}
    (hm : m ∈ [Move.forward, .next, .backward, .prev]) (c : Cursor) :
    ∃ trail last, Exhausts t m c trail last := by
  by_cases hlater : m ∈ [Move.forward, .next]
  · refine exists_exhausts (fun c => f.order.length - f.order.idxOf c.active) ?_ c
    intro c c' happly
    rw [m.apply_eq, moveTo_eq_true_iff] at happly
    have hlt := target_later h hlater happly.1
    have hle := List.idxOf_le_length (a := c'.active) (l := f.order)
    omega
  · have hearlier : m ∈ [Move.backward, .prev] := by
      simp only [List.mem_cons, List.not_mem_nil, or_false] at hm hlater ⊢
      tauto
    refine exists_exhausts (fun c => f.order.idxOf c.active) ?_ c
    intro c c' happly
    rw [m.apply_eq, moveTo_eq_true_iff] at happly
    exact target_earlier h hearlier happly.1

/-! ### Forward and backward -/

/-- A move backward undoes a move forward that did not come from the root. -/
theorem backward_of_forward (h : t.Shape f) (hroot : c.active ≠ Timeline.root)
    (hforward : Move.forward.apply t c = (true, c')) :
    Move.backward.apply t c' = (true, c) := by
  rw [Move.apply_eq, moveTo_eq_true_iff] at hforward ⊢
  have hbefore := h.after_eq_some_iff.mp hforward.1
  refine ⟨?_, hforward.2.symm⟩
  exact Option.filter_eq_some_iff.mpr ⟨hbefore, decide_eq_true hroot⟩

/-- A move forward undoes a move backward. -/
theorem forward_of_backward (h : t.Shape f) (hbackward : Move.backward.apply t c = (true, c')) :
    Move.forward.apply t c' = (true, c) := by
  rw [Move.apply_eq, moveTo_eq_true_iff] at hbackward ⊢
  refine ⟨h.after_eq_some_iff.mpr (Option.filter_eq_some_iff.mp hbackward.1).1, hbackward.2.symm⟩

/-- The order is the root, and then the first step and what follows it, if there is any. -/
theorem order_eq (h : t.Shape f) :
    (t.children Timeline.root = [] ∧ ofTimeline t = ⟨Timeline.root⟩ ∧ f.order = [Timeline.root]) ∨
    t.children Timeline.root ≠ [] ∧
      ∃ later, f.order = Timeline.root :: (ofTimeline t).active :: later := by
  obtain ⟨below, rfl, -, hfirst, -, hchildren⟩ := exists_row h
  rw [ofTimeline, hfirst]
  cases below with
  | nil => exact .inl ⟨hchildren, rfl, rfl⟩
  | cons id below behind =>
      refine .inr ⟨by simp [hchildren, Forest.roots], below.order ++ behind.order, ?_⟩
      simp [Forest.order]

/-- At the first step there is no way back. -/
theorem backward_first (h : t.Shape f) :
    Move.backward.apply t (ofTimeline t) = (false, ofTimeline t) := by
  rw [Move.apply_eq, moveTo_eq_false_iff]
  intro y htarget
  obtain ⟨hbefore, hne⟩ := Option.filter_eq_some_iff.mp htarget
  rcases order_eq h with ⟨-, hfirst, -⟩ | ⟨-, later, horder⟩
  · rw [hfirst, h.before_root] at hbefore
    cases hbefore
  · have hsplit : f.order = [Timeline.root] ++ (ofTimeline t).active :: later := horder
    rw [h.before_eq hsplit] at hbefore
    exact absurd (Option.some.inj hbefore).symm (of_decide_eq_true hne)

/-- From any other step there is a way back. -/
theorem exists_backward (h : t.Shape f) (hstep : OnStep t c) (hne : c ≠ ofTimeline t) :
    ∃ c', Move.backward.apply t c = (true, c') := by
  obtain ⟨hnode, hroot⟩ := hstep
  have hmem := h.mem_iff.mpr hnode
  rcases order_eq h with ⟨-, hfirst, horder⟩ | ⟨hchildren, later, horder⟩
  · rw [horder, List.mem_singleton] at hmem
    exact absurd (hfirst ▸ congrArg Cursor.mk hmem) hne
  · rw [horder] at hmem
    have hlater : c.active ∈ later := by
      rcases List.mem_cons.mp hmem with heq | hmem
      · exact absurd (hroot heq) hchildren
      · exact (List.mem_cons.mp hmem).resolve_left fun heq => hne (congrArg Cursor.mk heq)
    obtain ⟨front, behind, rfl⟩ := List.append_of_mem hlater
    -- The node in front of it is the first step or comes after that.
    obtain ⟨y, hy⟩ : ∃ y, ((ofTimeline t).active :: front).getLast? = some y :=
      ⟨_, List.getLast?_eq_some_getLast (List.cons_ne_nil _ _)⟩
    have hbefore : t.before c.active = some y := by
      have hsplit : f.order =
          (Timeline.root :: (ofTimeline t).active :: front) ++ c.active :: behind := horder
      rw [h.before_eq hsplit, List.getLast?_cons_cons, hy]
    have hyRoot : y ≠ Timeline.root := by
      intro hc
      have hnodup := h.nodup
      rw [horder, List.nodup_cons, ← List.cons_append, List.mem_append, not_or] at hnodup
      exact hnodup.1.1 (hc ▸ List.mem_of_getLast? hy)
    have htarget : Move.target t c.active .backward = some y :=
      Option.filter_eq_some_iff.mpr ⟨hbefore, decide_eq_true hyRoot⟩
    refine ⟨⟨y⟩, ?_⟩
    rw [Move.apply_eq, moveTo_eq_true_iff]
    refine ⟨htarget, fun heq => ?_⟩
    have hlt := target_earlier h (m := .backward) List.mem_cons_self htarget
    rw [show y = c.active from heq] at hlt
    exact absurd hlt (Nat.lt_irrefl _)

/-- Moved forward again and again, the cursor comes to each node that is left in the order. -/
theorem exhausts_forward (h : t.Shape f) {front later : List NodeId}
    (horder : f.order = front ++ c.active :: later) :
    ∃ last, Exhausts t .forward c (later.map Cursor.mk) last := by
  induction later generalizing front c with
  | nil =>
      refine ⟨c, .stop ?_⟩
      rw [Move.apply_eq, moveTo_eq_false_iff, Move.target, h.after_eq horder]
      intro y hy
      cases hy
  | cons y later ih =>
      have hafter : t.after c.active = some y := h.after_eq horder
      have hnext : f.order = (front ++ [c.active]) ++ y :: later := by simp [horder]
      obtain ⟨last, hrest⟩ := ih (c := ⟨y⟩) hnext
      refine ⟨last, .move ?_ hrest⟩
      rw [Move.apply_eq, moveTo_eq_true_iff]
      refine ⟨hafter, fun heq => ?_⟩
      have hlt := after_later h hafter
      rw [show y = c.active from heq] at hlt
      exact absurd hlt (Nat.lt_irrefl _)

/-- From the first step on, the cursor comes forward to all nodes but the root. -/
theorem exists_exhausts_from_first (h : t.Shape f) :
    ∃ trail last, Exhausts t .forward (ofTimeline t) trail last ∧
      f.order = if t.children Timeline.root = [] then [Timeline.root]
        else Timeline.root :: (ofTimeline t :: trail).map (·.active) := by
  rcases order_eq h with ⟨hchildren, hfirst, horder⟩ | ⟨hchildren, later, horder⟩
  · have hsplit : f.order = [] ++ (Cursor.mk Timeline.root).active :: [] := horder
    obtain ⟨last, hends⟩ := exhausts_forward h hsplit
    exact ⟨[], last, hfirst ▸ hends, by rw [if_pos hchildren, horder]⟩
  · have hsplit : f.order = [Timeline.root] ++ (ofTimeline t).active :: later := horder
    obtain ⟨last, hends⟩ := exhausts_forward h hsplit
    refine ⟨_, last, hends, ?_⟩
    rw [if_neg hchildren, List.map_cons, List.map_map]
    simpa [Function.comp_def] using horder

/-! ### All moves -/

/-- How a cursor behaves on a timeline, wherever it has been moved to. -/
structure Behaves (t : Timeline P) (c : Cursor) : Prop where
  exists_node : ∃ n, t.node? c.active = some n
  /-- The root is only active if there is nothing else. -/
  root : c.active = Timeline.root → t.children Timeline.root = []
  /-- The answer tells whether the active node has changed. -/
  changed : ∀ m : Move, (m.apply t c).1 = true ↔ (m.apply t c).2.active ≠ c.active
  later : ∀ m ∈ [Move.forward, .next], ∀ c', m.apply t c = (true, c') →
    t.chronological.idxOf c.active < t.chronological.idxOf c'.active
  earlier : ∀ m ∈ [Move.backward, .prev], ∀ c', m.apply t c = (true, c') →
    t.chronological.idxOf c'.active < t.chronological.idxOf c.active
  /-- Each of these moves can only be repeated so many times. -/
  ends : ∀ m ∈ [Move.forward, .next, .backward, .prev], ∃ trail last, Exhausts t m c trail last
  undo_forward : ∀ c', Move.forward.apply t c = (true, c') → Move.backward.apply t c' = (true, c)
  /-- Away from the first step there is a way back, and from there the way to here. -/
  undo_backward : c ≠ ofTimeline t →
    ∃ c', Move.backward.apply t c = (true, c') ∧ Move.forward.apply t c' = (true, c)
  first : c = ofTimeline t → Move.backward.apply t c = (false, c)

/-- **Wherever a cursor is moved, it behaves.** -/
theorem Browsed.behaves (hlabelled : t.Labelled begun rest) (hc : Browsed t c) : Behaves t c := by
  obtain ⟨f, h, -⟩ := hlabelled.layout
  have hstep := hc.onStep hlabelled
  have happly {m : Move} {c' : Cursor} (hm : m.apply t c = (true, c')) :
      m.target t c.active = some c'.active := by
    rw [m.apply_eq, moveTo_eq_true_iff] at hm
    exact hm.1
  refine ⟨hstep.1, hstep.2, fun m => m.apply_changed t c, ?_, ?_,
    fun m hm => exists_exhausts_of_mem h hm c, fun c' hforward => ?_, fun hne => ?_, ?_⟩
  · intro m hm c' hmove
    rw [h.chronological_eq]
    exact target_later h hm (happly hmove)
  · intro m hm c' hmove
    rw [h.chronological_eq]
    exact target_earlier h hm (happly hmove)
  · refine backward_of_forward h (fun hroot => ?_) hforward
    -- On the root there is nothing to go forward to.
    have hafter : t.after Timeline.root = some c'.active := hroot ▸ happly hforward
    rcases order_eq h with ⟨-, -, horder⟩ | ⟨hchildren, -⟩
    · have hsplit : f.order = [] ++ Timeline.root :: [] := horder
      rw [h.after_eq hsplit] at hafter
      cases hafter
    · exact hchildren (hstep.2 hroot)
  · obtain ⟨c', hback⟩ := exists_backward h hstep hne
    exact ⟨c', hback, forward_of_backward h hback⟩
  · rintro rfl
    exact backward_first h

end

end Cursor

end Chronicle
