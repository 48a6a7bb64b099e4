import Chronicle.Proofs.Explorer.Window
import Chronicle.Proofs.Run.Moments
import Chronicle.Proofs.Timeline.Breadcrumbs
import Chronicle.Proofs.Timeline.Browsing
/-!
What keys do to the explorer.

The state that is shown is opened when the cursor has moved, and then kept.  It is that of the
active step because of what one key can do (`press_cases`): either a move of the cursor answers that
it has changed the step, and the state is opened anew, or the step is the same and so is all that is
shown of it.  That the answer of a move can be relied on was said of cursors.
-/

namespace Chronicle.Explorer

variable {P : Type} {r : Run P} {e e' : Explorer P}

/-- The states that an explorer of the run comes to when keys are pressed and frames are drawn. -/
inductive Reached (r : Run P) : Explorer P → Prop
  | opening : Reached r (ofRun r)
  | press {e : Explorer P} (h : Reached r e) (key : Key) : Reached r (e.press key)
  | draw {e : Explorer P} (h : Reached r e) (width height : Nat) : Reached r (e.draw width height).2

theorem Reached.pressAll (h : Reached r e) (keys : List Key) :
    Reached r (keys.foldl Explorer.press e) := by
  induction keys generalizing e with
  | nil => exact h
  | cons key keys ih => exact ih (h.press key)

/-- The state of the active step is shown, or it is said why there is none. -/
def ShowsActive (e : Explorer P) : Prop :=
  match e.run.snapshotAt e.cursor.active with
  | .ok snapshot => e.snapshot = some snapshot ∧ e.message = "Ready!"
  | .error err => e.snapshot = none ∧ e.message = "Cannot open step: " ++ err.message

/-! ### Opening the active step -/

theorem openActive_spec (e : Explorer P) :
    e.openActive.run = e.run ∧ e.openActive.entries = e.entries ∧
      e.openActive.cursor = e.cursor ∧ e.openActive.grammarOffset = 0 ∧
      e.openActive.structuresOffset = 0 ∧ e.openActive.ShowsActive := by
  unfold openActive ShowsActive
  cases hopen : e.run.snapshotAt e.cursor.active <;> simp [hopen]

/-! ### One key -/

/-- The same step is looked at, and the same is shown of it. -/
structure SameView (e e' : Explorer P) : Prop where
  run : e'.run = e.run
  entries : e'.entries = e.entries
  cursor : e'.cursor = e.cursor
  snapshot : e'.snapshot = e.snapshot
  message : e'.message = e.message

theorem SameView.showsActive (h : SameView e e') (hshows : e.ShowsActive) : e'.ShowsActive := by
  rw [ShowsActive, h.run, h.cursor, h.snapshot, h.message]
  exact hshows

theorem sameView_scrollFocused (e : Explorer P) (change : Nat → Nat) :
    SameView e (e.scrollFocused change) := by
  unfold scrollFocused
  split <;> exact ⟨rfl, rfl, rfl, rfl, rfl⟩

/-- The keys that move the cursor make the moves that cursors have. -/
theorem exists_move {t : Timeline (Job P)} {key : Key} {move : Cursor → Bool × Cursor}
    (h : moveFor? t key = some move) : ∃ m : Cursor.Move, ∀ c, move c = m.apply t c := by
  cases key <;> simp only [moveFor?, Option.some.injEq, reduceCtorEq] at h
  case left => exact ⟨.backward, fun c => h ▸ rfl⟩
  case right => exact ⟨.forward, fun c => h ▸ rfl⟩
  case up => exact ⟨.prev, fun c => h ▸ rfl⟩
  case down => exact ⟨.next, fun c => h ▸ rfl⟩
  case enter => exact ⟨.stop, fun c => h ▸ rfl⟩
  case backspace => exact ⟨.start, fun c => h ▸ rfl⟩

/-- A key moves the cursor to another step, which is opened, or leaves the step that is looked at
and what is shown of it. -/
theorem press_cases (e : Explorer P) (key : Key) :
    (∃ (m : Cursor.Move) (c : Cursor), m.apply e.run.timeline e.cursor = (true, c) ∧
      c.active ≠ e.cursor.active ∧ e.press key = openActive { e with cursor := c }) ∨
    SameView e (e.press key) := by
  unfold press
  cases hkey : moveFor? e.run.timeline key with
  | some move =>
      obtain ⟨m, hm⟩ := exists_move hkey
      dsimp only
      rw [hm]
      rcases m.apply_cases e.run.timeline e.cursor with ⟨c, happly, -, hne⟩ | happly
      · refine .inl ⟨m, c, happly, hne, ?_⟩
        rw [happly]
        rfl
      · refine .inr ?_
        rw [happly]
        exact ⟨rfl, rfl, rfl, rfl, rfl⟩
  | none =>
      refine .inr ?_
      dsimp only
      split
      · exact ⟨rfl, rfl, rfl, rfl, rfl⟩
      · exact ⟨rfl, rfl, rfl, rfl, rfl⟩
      · exact ⟨rfl, rfl, rfl, rfl, rfl⟩
      · exact ⟨rfl, rfl, rfl, rfl, rfl⟩
      · exact sameView_scrollFocused e _
      · exact sameView_scrollFocused e _
      · exact ⟨rfl, rfl, rfl, rfl, rfl⟩

/-! ### All keys -/

/-- The explorer looks at the run `r`, with a cursor that was moved over it. -/
structure LooksAt (r : Run P) (e : Explorer P) : Prop where
  run : e.run = r
  entries : e.entries = r.timeline.entries
  cursor : Cursor.Browsed r.timeline e.cursor
  shows : e.ShowsActive

theorem LooksAt.sameView (h : LooksAt r e) (hsame : SameView e e') : LooksAt r e' where
  run := hsame.run.trans h.run
  entries := hsame.entries.trans h.entries
  cursor := hsame.cursor ▸ h.cursor
  shows := hsame.showsActive h.shows

/-- Opening the active step makes what is shown right. -/
theorem looksAt_openActive (hrun : e.run = r) (hentries : e.entries = r.timeline.entries)
    (hcursor : Cursor.Browsed r.timeline e.cursor) : LooksAt r e.openActive := by
  obtain ⟨hrun', hentries', hcursor', -, -, hshows⟩ := e.openActive_spec
  exact ⟨hrun'.trans hrun, hentries'.trans hentries, hcursor' ▸ hcursor, hshows⟩

theorem LooksAt.press (h : LooksAt r e) (key : Key) : LooksAt r (e.press key) := by
  rcases e.press_cases key with ⟨m, c, happly, -, hpress⟩ | hsame
  · rw [hpress]
    have hmoved : Cursor.Browsed r.timeline c := by
      have hbrowsed := h.cursor.move m
      rwa [← h.run, happly, h.run] at hbrowsed
    exact looksAt_openActive h.run h.entries hmoved
  · exact h.sameView hsame

theorem Reached.looksAt (h : Reached r e) : LooksAt r e := by
  induction h with
  | opening => exact looksAt_openActive rfl rfl .opening
  | press _ key ih => exact ih.press key
  | draw _ _ _ ih => exact ih.sameView ⟨rfl, rfl, rfl, rfl, rfl⟩

/-- The active step is in the list, unless the list is empty. -/
theorem LooksAt.active_mem (h : LooksAt r e) (hmarked : r.Marked) (hne : e.entries ≠ []) :
    e.cursor.active ∈ e.entries.map (·.id) := by
  obtain ⟨begun, rest, hlabelled⟩ := hmarked
  obtain ⟨f, hshape, -⟩ := hlabelled.layout
  obtain ⟨hnode, hroot⟩ := h.cursor.onStep hlabelled
  have hids := hshape.entries_ids
  have hmem : e.cursor.active ∈ Timeline.root :: r.timeline.entries.map (·.id) := by
    rw [← hids, hshape.chronological_eq]
    exact hshape.mem_iff.mpr hnode
  rw [h.entries] at hne ⊢
  rcases List.mem_cons.mp hmem with heq | hmem
  · -- On the root, there is nothing else, and the list is empty.
    rcases Cursor.order_eq hshape with ⟨-, -, horder⟩ | ⟨hchildren, -⟩
    · rw [hshape.chronological_eq, horder, List.cons.injEq] at hids
      exact absurd (List.map_eq_nil_iff.mp hids.2.symm) hne
    · exact absurd (hroot heq) hchildren
  · exact hmem

/-- **The explorer follows its cursor.**

A run is looked at, at any moment, finished or aborted or not.  Whatever keys are pressed, it stays
as it is; the state of the active step is shown if it can be opened, and otherwise none is shown but
the reason why; the position is the place of the active step in the list of steps, unless the list
is empty.  A key that moves the cursor has the grammar and the structures shown from their first
line. -/
theorem Reached.follows_cursor {library : Library P} {initial : Snapshot} {root : Job P}
    {config : RunConfig} (hr : Run.Moment library (.ofJob initial root config) r)
    (h : Reached r e) :
    e.run = r ∧ e.ShowsActive ∧
    (e.entries ≠ [] → ∃ entry, e.entries[e.position]? = some entry ∧
      entry.id = e.cursor.active) ∧
    ∀ key, (e.press key).cursor ≠ e.cursor →
      (e.press key).grammarOffset = 0 ∧ (e.press key).structuresOffset = 0 := by
  refine ⟨h.looksAt.run, h.looksAt.shows, fun hne => ?_, fun key hmoved => ?_⟩
  · obtain ⟨position, entry, hplace, hentry, hid⟩ :=
      StepsPane.exists_position (h.looksAt.active_mem hr.marked.1 hne)
    refine ⟨entry, ?_, hid⟩
    rw [Explorer.position, hplace]
    exact hentry
  · rcases e.press_cases key with ⟨m, c, -, -, hpress⟩ | hsame
    · rw [hpress]
      obtain ⟨-, -, -, hgrammar, hstructures, -⟩ := openActive_spec { e with cursor := c }
      exact ⟨hgrammar, hstructures⟩
    · exact absurd hsame.cursor hmoved

/-- Three steps, of which the second fails. -/
def stopping : Nat → Script Nat Unit
  | 0 => do
    Script.schedule 1
    Script.schedule 2
    Script.schedule 3
  | 2 => throw (.invalidData (.complaint "no way"))
  | _ => pure ()

/-- In the run that is aborted the third step never got a state; the explorer goes there and says
so. -/
theorem Reached.follows_cursor_aborted : ∃ r,
    Run.Reaches stopping (.ofJob Run.oneSymbol (.named 0) {}) r ∧ r.phase = .aborted ∧
      ∃ e, Reached r e ∧ e.cursor.active = ⟨3⟩ ∧ e.run = r ∧ e.snapshot = none ∧
        e.message =
          "Cannot open step: Invalid archived data: step #3 has no state to work on" ∧
        ∃ entry, e.entries[e.position]? = some entry ∧ entry.id = ⟨3⟩ := by
  have hreaches := Run.Reaches.command
    (.refl : Run.Reaches stopping (.ofJob Run.oneSymbol (.named 0) {}) _)
    (Script.demand (.execute 1))
  generalize hr : ((Run.command stopping (Script.demand (.execute 1))).apply
    (.ofJob Run.oneSymbol (.named 0) {})).2 = r at hreaches
  have hphase : r.phase = .aborted := by subst hr; decide +kernel
  have hcursor : ([Key.right, .right].foldl Explorer.press (ofRun r)).cursor.active = ⟨3⟩ := by
    subst hr
    decide +kernel
  have hentries : ([Key.right, .right].foldl Explorer.press (ofRun r)).entries ≠ [] := by
    subst hr
    decide +kernel
  have hopens : r.snapshotAt ⟨3⟩ = .error (.invalidData (.noState ⟨3⟩)) := by
    subst hr
    decide +kernel
  have hreached := (Reached.opening (r := r)).pressAll [Key.right, .right]
  obtain ⟨hrun, hshows, hposition, -⟩ := Reached.follows_cursor hreaches.moment hreached
  obtain ⟨entry, hentry, hid⟩ := hposition hentries
  rw [ShowsActive, hrun, hcursor, hopens] at hshows
  exact ⟨r, hreaches, hphase, _, hreached, hcursor, hrun, hshows.1, hshows.2, entry, hentry,
    hid.trans hcursor⟩

end Chronicle.Explorer
