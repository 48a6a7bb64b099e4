import Chronicle.Screen.Widget
/-!
Drawing row by row.

Whatever draws a line of text looks at one row of the grid and changes nothing else (`EditsRow`).
So each row of a paragraph or a list is what drawing its line alone makes of that row
(`row_drawParagraph`, `row_drawList`), whatever is drawn into the other rows.
-/

namespace Chronicle.Screen

namespace Grid

variable {g g' : Grid} {a : Area} {y y' : Nat} {draw draw' : Grid → Grid}

/-! ### Drawing into one row -/

/-- Drawing that changes row `y` alone, and without a look at the others. -/
def EditsRow (y : Nat) (draw : Grid → Grid) : Prop :=
  ∃ f : Array Cell → Array Cell, ∀ g, draw g = ⟨g.rows.modify y f⟩

namespace EditsRow

theorem nothing (y : Nat) : EditsRow y fun g => g := by
  refine ⟨fun row => row, fun g => ?_⟩
  have hrows : g.rows.modify y (fun row => row) = g.rows := by
    refine Array.ext_getElem? fun i => ?_
    rw [Array.getElem?_modify]
    split <;> simp
  rw [hrows]

theorem comp (h : EditsRow y draw) (h' : EditsRow y draw') :
    EditsRow y fun g => draw' (draw g) := by
  obtain ⟨f, hf⟩ := h
  obtain ⟨f', hf'⟩ := h'
  refine ⟨fun row => f' (f row), fun g => ?_⟩
  show draw' (draw g) = _
  rw [hf', hf, Grid.mk.injEq]
  refine Array.ext_getElem? fun i => ?_
  simp only [Array.getElem?_modify]
  split <;> simp [Function.comp_def]

theorem foldl {α : Type} {draw : Grid → α → Grid} (l : List α)
    (h : ∀ x, EditsRow y fun g => draw g x) : EditsRow y fun g => l.foldl draw g := by
  induction l with
  | nil => exact nothing y
  | cons x l ih => exact (h x).comp ih

/-- Other rows stay as they are. -/
theorem other (h : EditsRow y draw) (g : Grid) (hne : y' ≠ y) :
    (draw g).rows[y']? = g.rows[y']? := by
  obtain ⟨f, hf⟩ := h
  rw [hf, Array.getElem?_modify, if_neg (Ne.symm hne)]

/-- The row becomes what it becomes in any grid with this row. -/
theorem same (h : EditsRow y draw) (hrow : g.rows[y]? = g'.rows[y]?) :
    (draw g).rows[y]? = (draw g').rows[y]? := by
  obtain ⟨f, hf⟩ := h
  rw [hf, hf, Array.getElem?_modify, Array.getElem?_modify, hrow]

/-! ### What draws like this -/

theorem modify (x y : Nat) (f : Cell → Cell) : EditsRow y fun g => g.modify x y f :=
  ⟨_, fun _ => rfl⟩

theorem clear (x y count : Nat) : EditsRow y fun g => g.clear x y count :=
  .foldl _ fun i => .modify (x + i) y _

theorem drawSymbols (right y start : Nat) (style : Style) (first : Bool) (x : Nat)
    (symbols : List Symbol) :
    EditsRow y fun g => g.drawSymbols right y start style first x symbols := by
  induction symbols generalizing first x with
  | nil => exact nothing y
  | cons s rest ih =>
      unfold Grid.drawSymbols
      by_cases hfits : right < x + s.width
      · simpa only [if_pos hfits] using nothing y
      · simp only [if_neg hfits]
        have hrest : EditsRow y fun g => (g.clear (x + 1) y (s.width - 1)).drawSymbols right y start
            style false (x + s.width) rest := (EditsRow.clear ..).comp (ih ..)
        refine comp ?_ hrest
        split
        · exact modify ..
        · split
          · exact modify ..
          · split <;> exact modify ..

theorem drawSpan (right y x : Nat) (span : Span) :
    EditsRow y fun g => g.drawSpan right y x span := by
  unfold Grid.drawSpan
  split
  · exact nothing y
  · exact .drawSymbols ..

theorem drawSpans (right y x : Nat) (spans : List Span) :
    EditsRow y fun g => g.drawSpans right y x spans := by
  induction spans generalizing x with
  | nil => exact nothing y
  | cons span rest ih => exact (EditsRow.drawSpan ..).comp (ih _)

theorem putAll (base : Style) (y x : Nat) (symbols : List (Symbol × Style)) :
    EditsRow y fun g => g.putAll base y x symbols := by
  induction symbols generalizing x with
  | nil => exact nothing y
  | cons symbol rest ih =>
      obtain ⟨s, style⟩ := symbol
      unfold Grid.putAll
      by_cases hwidth : s.width = 0
      · simpa only [if_pos hwidth] using ih x
      · simp only [if_neg hwidth]
        exact ((modify ..).comp (modify ..)).comp (ih _)

theorem drawLine (a : Area) (y : Nat) (alignment : Alignment) (l : Line) :
    EditsRow y fun g => g.drawLine a y alignment l :=
  .putAll ..

/-- An area of one row is painted without a look at the others. -/
theorem paint (x y width : Nat) (style : Style) :
    EditsRow y fun g => g.paint ⟨x, y, width, 1⟩ style := by
  refine ⟨fun row => row.mapIdx fun i c =>
    if x ≤ i && i < x + width then c.withStyle style else c, fun g => ?_⟩
  refine congrArg Grid.mk ?_
  refine Array.ext_getElem? fun i => ?_
  rw [Array.getElem?_mapIdx, Array.getElem?_modify]
  by_cases hi : y = i
  · subst hi
    simp
  · have hrange : (y ≤ i && i < y + 1) = false := by
      rw [Bool.and_eq_false_iff, decide_eq_false_iff_not, decide_eq_false_iff_not]
      omega
    simp only [hrange, Bool.false_eq_true, if_false, if_neg hi]
    exact Option.map_id'

end EditsRow

/-! ### Row after row -/

section

variable {α : Type} {draw : Grid → α × Nat → Grid}
  (hdraw : ∀ l y, EditsRow y fun g => draw g (l, y))

include hdraw

theorem row_foldl_zipIdx_of_lt (ls : List α) {y₀ : Nat} (hy : y < y₀) (g : Grid) :
    ((ls.zipIdx y₀).foldl draw g).rows[y]? = g.rows[y]? := by
  induction ls generalizing y₀ g with
  | nil => rfl
  | cons l ls ih =>
      rw [List.zipIdx_cons, List.foldl_cons, ih (Nat.lt_succ_of_lt hy)]
      exact (hdraw l y₀).other g (Nat.ne_of_lt hy)

/-- Of what is drawn row by row, each row shows its own part. -/
theorem row_foldl_zipIdx {ls : List α} {i : Nat} {l : α} (hl : ls[i]? = some l) (y₀ : Nat)
    (g : Grid) :
    ((ls.zipIdx y₀).foldl draw g).rows[y₀ + i]? = (draw g (l, y₀ + i)).rows[y₀ + i]? := by
  induction ls generalizing i y₀ g with
  | nil => simp at hl
  | cons first ls ih =>
      rw [List.zipIdx_cons, List.foldl_cons]
      cases i with
      | zero =>
          obtain rfl : first = l := by simpa using hl
          exact row_foldl_zipIdx_of_lt hdraw ls (Nat.lt_succ_self y₀) _
      | succ i =>
          have hrow : y₀ + (i + 1) = y₀ + 1 + i := by omega
          rw [hrow, ih (by simpa using hl)]
          exact (hdraw l _).same ((hdraw first y₀).other g (by omega))

end

/-! ### Areas without columns -/

theorem paint_of_width (h : a.width = 0) (g : Grid) (style : Style) : g.paint a style = g := by
  have hnone : ∀ x, (a.x ≤ x && x < a.x + a.width) = false := by
    intro x
    rw [Bool.and_eq_false_iff, decide_eq_false_iff_not, decide_eq_false_iff_not]
    omega
  rw [paint]
  congr 1
  refine Array.ext_getElem? fun i => ?_
  rw [Array.getElem?_mapIdx]
  simp only [hnone, Bool.false_eq_true, if_false]
  cases g.rows[i]? with
  | none => rfl
  | some row =>
      have hrow : row.mapIdx (fun _ c => c) = row := by
        refine Array.ext_getElem? fun j => ?_
        rw [Array.getElem?_mapIdx]
        cases row[j]? <;> rfl
      simp [hrow]

/-- Only symbols that take no cell fit into none. -/
theorem width_of_mem_fitting {β : Type} {used : Nat} {symbols : List (Symbol × β)}
    {s : Symbol × β} (h : s ∈ fitting 0 used symbols) : s.1.width = 0 := by
  fun_induction fitting 0 used symbols with
  | case1 => simp at h
  | case2 used s look rest _ ih => exact ih h
  | case3 => simp at h
  | case4 used s look rest hwide _ ih =>
      rcases List.mem_cons.mp h with rfl | h
      · exact Nat.eq_zero_of_not_pos hwide
      · exact ih h

theorem putAll_of_width {symbols : List (Symbol × Style)} (h : ∀ s ∈ symbols, s.1.width = 0)
    (g : Grid) (base : Style) (y x : Nat) : g.putAll base y x symbols = g := by
  induction symbols with
  | nil => rfl
  | cons s rest ih =>
      rw [putAll, if_pos (h s List.mem_cons_self)]
      exact ih fun s hs => h s (List.mem_cons_of_mem _ hs)

theorem drawLine_of_width (h : a.width = 0) (g : Grid) (y : Nat) (alignment : Alignment)
    (l : Line) : g.drawLine a y alignment l = g := by
  have hnone : ∀ s ∈ fitting a.width 0 l.symbols, s.1.width = 0 := by
    rw [h]
    exact fun s hs => width_of_mem_fitting hs
  exact putAll_of_width hnone ..

/-! ### Paragraphs and lists -/

/-- **A paragraph shows in each row the line that stands so far behind the skipped ones.** -/
theorem row_drawParagraph {lines : List Line} {skip i : Nat} {l : Line} (hi : i < a.height)
    (hl : lines[skip + i]? = some l) (g : Grid) (style : Style) (alignment : Alignment) :
    (g.drawParagraph a lines style skip alignment).rows[a.y + i]?
      = ((g.paint a style).drawLine a (a.y + i) alignment l).rows[a.y + i]? := by
  have hheight : a.height ≠ 0 := by omega
  by_cases hwidth : a.width = 0
  · rw [drawParagraph, if_pos (by simp [Area.isEmpty, hwidth]), drawLine_of_width hwidth,
      paint_of_width hwidth]
  · have hshown : (shownLines lines skip a.height)[i]? = some l := by
      rw [shownLines, List.getElem?_take_of_lt hi, List.getElem?_drop, hl]
    rw [drawParagraph, if_neg (by simp [Area.isEmpty, hwidth, hheight])]
    exact row_foldl_zipIdx (fun l y => .drawLine a y alignment l) hshown a.y _

end Grid

end Chronicle.Screen
