import Chronicle.Proofs.Explorer.Window
/-!
Where scrolled panes start.

The panes of the grammar and of the structures are drawn in one way.  The number of lines to skip is
cut down to what the lines allow, remembered, and handed on; what is handed on starts over at
`skipLimit`.  So the first row of content shows the line whose index is the rest of the remembered
number by the limit (`startsAt_drawLines`).  Below the limit that is the number itself, and from the
limit on it is the number of another line.
-/

namespace Chronicle.Explorer

open Chronicle.Screen

/-- The pane before any line is drawn. -/
def framed (grid : Grid) (a : Area) (title : String) (focused : Bool) : Grid :=
  (grid.drawFrame a title (Theme.border focused)).paint a.inside.padded .plain

/-- A pane was drawn that was asked to skip `wish` of its lines: what it remembers, and the picture.
It remembers that number, or else that of the lines that do not fit, and if it has a row of content,
the first one is what the line of index `first` makes of it. -/
structure StartsAt (grid : Grid) (a : Area) (title : String) (focused : Bool) (lines : List Line)
    (wish first : Nat) (drawn : Nat × Grid) : Prop where
  stored : drawn.1 = min wish (lines.length - max 1 (a.height - 2))
  shown : 3 ≤ a.height → ∃ l, lines[first]? = some l ∧ drawn.2.rows[a.y + 1]?
    = ((framed grid a title focused).drawLine a.inside.padded (a.y + 1) .left l).rows[a.y + 1]?

theorem clampOffset_lt {lines : Nat} (h : 0 < lines) (height wish : Nat) :
    clampOffset lines height wish < lines := by
  have hpos := visibleLines_pos height
  rw [clampOffset]
  omega

/-- The first line is the one whose index is handed on. -/
theorem startsAt_drawLines {lines : List Line} (h : lines ≠ []) (grid : Grid) (a : Area)
    (title : String) (focused : Bool) (wish : Nat) :
    StartsAt grid a title focused lines wish (clampOffset lines.length a.height wish % skipLimit)
      (clampOffset lines.length a.height wish,
        drawLines grid a title lines focused (clampOffset lines.length a.height wish)) := by
  have hlt := clampOffset_lt (List.length_pos_iff.mpr h) a.height wish
  refine ⟨?_, fun hheight => ?_⟩
  · rw [clampOffset, visibleLines, Nat.max_comm]
  · have hfirst := Nat.lt_of_le_of_lt (Nat.mod_le _ skipLimit) hlt
    have hline := List.getElem?_eq_getElem hfirst
    have hrow := Grid.row_drawParagraph (a := a.inside.padded) (i := 0)
      (show 0 < a.height - 2 by omega) hline (grid.drawFrame a title (Theme.border focused)) .plain
      .left
    exact ⟨_, hline, hrow⟩

/-! ### The lines of the panes -/

theorem GrammarPane.lines_ne_nil (g : Grammar) : GrammarPane.lines g ≠ [] := List.cons_ne_nil _ _

namespace StructuresPane

variable {bag : Bag}

theorem structureLines_ne_nil (s : Structure) : structureLines s ≠ [] := by
  rw [structureLines]
  split <;> exact List.cons_ne_nil _ _

theorem lines_ne_nil (h : bag.isEmpty = false) : lines bag ≠ [] := by
  obtain ⟨entry, hentry⟩ := List.isEmpty_eq_false_iff_exists_mem.mp h
  have hmem : entry.2 ∈ bag.toList := List.mem_mergeSort.mpr (List.mem_map_of_mem hentry)
  obtain ⟨l, hl⟩ := List.exists_mem_of_ne_nil _ (structureLines_ne_nil entry.2)
  exact List.ne_nil_of_mem (List.mem_flatMap.mpr ⟨entry.2, hmem, hl⟩)

theorem draw_of_nonempty (h : bag.isEmpty = false) (grid : Grid) (a : Area) (focused : Bool)
    (wish : Nat) : draw grid a (some bag) focused wish =
      (clampOffset (lines bag).length a.height wish,
        drawLines grid a title (lines bag) focused
          (clampOffset (lines bag).length a.height wish)) := by
  rw [draw, Option.filter_some_pos (by simp [h])]

end StructuresPane

/-- **Scrolled panes start where the number of skipped lines says, up to a limit.**

Whatever number of lines is to be skipped, the pane of a grammar and that of structures remember
this number, or that of the lines that do not fit.  Their first row of content shows the line whose
index is the rest of the remembered number by the limit, which is the line of that very number
wherever less than the limit is skipped. -/
theorem panes_start_at {bag : Bag} (h : bag.isEmpty = false) (g : Grammar) (grid : Grid) (a : Area)
    (focused : Bool) (wish : Nat) :
    StartsAt grid a GrammarPane.title focused (GrammarPane.lines g) wish
      ((GrammarPane.draw grid a (some g) focused wish).1 % skipLimit)
      (GrammarPane.draw grid a (some g) focused wish) ∧
    StartsAt grid a StructuresPane.title focused (StructuresPane.lines bag) wish
      ((StructuresPane.draw grid a (some bag) focused wish).1 % skipLimit)
      (StructuresPane.draw grid a (some bag) focused wish) := by
  refine ⟨startsAt_drawLines (GrammarPane.lines_ne_nil g) grid a _ focused wish, ?_⟩
  rw [StructuresPane.draw_of_nonempty h]
  exact startsAt_drawLines (StructuresPane.lines_ne_nil h) grid a _ focused wish

/-! ### At the limit -/

namespace StructuresPane

/-- A mapping of so many pairs of symbols without a name. -/
def manyPairs (count : Nat) : Structure :=
  ⟨"m", "m", .none, 1, .symbolMapping ⟨List.replicate count ("", "")⟩⟩

/-- The bag that holds this mapping. -/
def bagOfPairs (count : Nat) : Bag := ⟨.ofList [("m", manyPairs count)]⟩

/-- The line of the mapping's name. -/
def nameLine : Line := .styled "m" (nameStyle .none)

/-- The line of a pair. -/
def pairLine : Line := .styled "   ↦ " detail

theorem bagOfPairs_nonempty (count : Nat) : (bagOfPairs count).isEmpty = false := rfl

theorem lines_bagOfPairs (count : Nat) :
    lines (bagOfPairs count) = nameLine :: List.replicate count pairLine := by
  have hlist : (bagOfPairs count).toList = [manyPairs count] := List.mergeSort_singleton _
  rw [lines, hlist, List.flatMap_singleton, manyPairs, structureLines]
  simp [nameLine, pairLine]

theorem length_lines_bagOfPairs (count : Nat) : (lines (bagOfPairs count)).length = count + 1 := by
  rw [lines_bagOfPairs, List.length_cons, List.length_replicate]

theorem getElem?_lines_bagOfPairs {count i : Nat} (h : i < count) :
    (lines (bagOfPairs count))[i + 1]? = some pairLine := by
  rw [lines_bagOfPairs, List.getElem?_cons_succ, List.getElem?_replicate, if_pos h]

/-- A pane of three rows inside its frame. -/
def smallArea : Area := ⟨0, 0, 16, 5⟩

theorem draw_bagOfPairs_fst (count wish : Nat) :
    (draw (.blank 16 5) smallArea (some (bagOfPairs count)) false wish).1
      = min wish (count - 2) := by
  rw [draw_of_nonempty (bagOfPairs_nonempty count), length_lines_bagOfPairs]
  show min wish (count + 1 - 3) = _
  omega

/-- Just below the limit the first line is the one that is asked for. -/
theorem panes_start_at_below_limit :
    (bagOfPairs 65538).isEmpty = false ∧
      StartsAt (.blank 16 5) smallArea title false (lines (bagOfPairs 65538)) 65535 65535
        (draw (.blank 16 5) smallArea (some (bagOfPairs 65538)) false 65535) := by
  have hstarts := (panes_start_at (bagOfPairs_nonempty 65538) ⟨.empty, .empty, .empty, "S"⟩
    (.blank 16 5) smallArea false 65535).2
  rw [draw_bagOfPairs_fst] at hstarts
  exact ⟨bagOfPairs_nonempty 65538, hstarts⟩

/-- In the first row of the pane the name looks different from a pair. -/
theorem nameLine_ne_pairLine :
    ((framed (.blank 16 5) smallArea title false).drawLine smallArea.inside.padded 1 .left
      nameLine).rows[1]? ≠
    ((framed (.blank 16 5) smallArea title false).drawLine smallArea.inside.padded 1 .left
      pairLine).rows[1]? := by
  decide +kernel

/-- At the limit the pane remembers the number, but shows the first of all lines again. -/
theorem not_startsAt_limit :
    (draw (.blank 16 5) smallArea (some (bagOfPairs 65538)) false 65536).1 = 65536 ∧
      ¬ StartsAt (.blank 16 5) smallArea title false (lines (bagOfPairs 65538)) 65536 65536
        (draw (.blank 16 5) smallArea (some (bagOfPairs 65538)) false 65536) := by
  have hstored := draw_bagOfPairs_fst 65538 65536
  refine ⟨hstored, fun h => ?_⟩
  have hstarts := startsAt_drawLines (lines_ne_nil (bagOfPairs_nonempty 65538)) (.blank 16 5)
    smallArea title false 65536
  rw [← draw_of_nonempty (bagOfPairs_nonempty 65538), length_lines_bagOfPairs] at hstarts
  obtain ⟨l, hl, hshown⟩ := h.shown (by decide)
  obtain ⟨l', hl', hshown'⟩ := hstarts.shown (by decide)
  have hover : clampOffset (65538 + 1) smallArea.height 65536 % skipLimit = 0 := by decide
  rw [hover, lines_bagOfPairs, List.getElem?_cons_zero] at hl'
  obtain rfl := Option.some.inj hl'
  obtain rfl := Option.some.inj
    ((getElem?_lines_bagOfPairs (show 65535 < 65538 by decide)).symm.trans hl)
  exact nameLine_ne_pairLine (hshown'.symm.trans hshown)

end StructuresPane

end Chronicle.Explorer
