import Chronicle.Proofs.Grammar.Integrity
import Chronicle.Proofs.Grammar.Rewriting
import Chronicle.Proofs.LoopRemoval.Steps
import Chronicle.Proofs.Run.Execution
import Chronicle.Proofs.Run.Moments
/-!
What loop removal comes to.

The loops are listed before the proposals of the grammar are made true.  If none of them is tagged
as removed, all of them are still there afterwards, and the run takes them away one by one
(`exists_removed`): what is left is the grammar without its loops.
-/

namespace Chronicle

namespace LoopRemoval

variable {g g₀ : Grammar} {gone : List RuleKey} {r : Run Procedure.Step}

/-- What a finished run looks like: the removing steps stand in a row between the first and the last
step, and each has the record of its removal. -/
theorem Removed.exists_row (h : Removed g₀ gone r) (hmarked : r.Marked) :
    ∃ first removals last,
      r.timeline.chronological = Timeline.root :: first :: removals ++ [last] ∧
      r.timeline.children Timeline.root = first :: removals ++ [last] ∧
      removals.length = gone.length ∧
      ∀ i key, gone[i]? = some key → ∃ id data g', removals[i]? = some id ∧
        r.timeline.labelOf id = ⟨[i + 2]⟩ ∧ r.recordAt id = .ok (some data) ∧
        Grammar.ofData data.grammar = .ok g' ∧
        ∀ e, g'.tag? e = if e = .rule key then some .removed else tagsWithout g₀ (gone.take i) e := by
  obtain ⟨root, first, removals, last, final, s, hclosed, hlevel, -, -, hrecords⟩ := h
  have hchron : r.timeline.chronological = root :: first :: removals ++ [last] :=
    hclosed.order_eq.2.1
  rw [hlevel.chronological_eq] at hchron
  obtain ⟨rfl, hchildren⟩ := List.cons.inj hchron
  refine ⟨first, removals, last, hclosed.order_eq.2.1, hchildren, hrecords.length_eq,
    fun i key hkey => ?_⟩
  obtain ⟨id, hid, data, g', hrecord, hofData, htags⟩ := hrecords.exists_of_getElem? hkey
  have hplace : (r.timeline.children Timeline.root)[i + 1]? = some id := by
    rw [hchildren]
    show (removals ++ [last])[i]? = some id
    rw [List.getElem?_append_left (List.getElem?_eq_some_iff.mp hid).1, hid]
  refine ⟨id, data, g', hid, ?_, Run.recordAt_eq_ok.mpr hrecord, hofData, htags⟩
  rw [hmarked.labelOf_eq hrecord, hlevel.position_eq hplace]

/-- What a finished run leaves. -/
theorem Removed.exists_final (h : Removed g₀ gone r) :
    r.steps = 3 + gone.length ∧ ∃ final s, r.finalSnapshot? = some final ∧
      final.materialize = .ok s ∧ Stage g₀ gone s := by
  obtain ⟨root, first, removals, last, final, s, hclosed, -, hmaterialize, hstage, hrecords⟩ := h
  refine ⟨?_, final, s, hclosed.finalSnapshot?_eq, hmaterialize, hstage⟩
  rw [hclosed.steps, ← hrecords.length_eq]
  simp only [List.length_append, List.length_cons, List.length_nil]
  omega

/-- **Loops that are still there when the proposals are made true are removed**, one by one. -/
theorem exists_removed (hfinalize : Grammar.finalize.apply g = (.ok (), g₀)) (hintact : g₀.Intact)
    (hloops : ∀ key ∈ loops g, key ∈ g₀.outline.rules) (config : RunConfig) :
    ∃ r, (∀ rounds, 3 + (loops g).length ≤ rounds →
        (Run.execute Procedure.library rounds).apply
          (Procedure.start .removeLoops (.ofGrammar g) config) = (.ok .finished, r)) ∧
      Removed g₀ (loops g) r ∧ r.Marked := by
  obtain ⟨r₁, hfirst, h₁⟩ := exists_removing hfinalize hintact config
  rw [← List.append_nil (loops g)] at h₁
  obtain ⟨r₂, hremovals, h₂⟩ := h₁.stepsTo hloops (by simpa using nodup_loops g)
  obtain ⟨r, hlast, hremoved⟩ := h₂.exists_last
  have hsteps := hfirst.trans hremovals
  refine ⟨r, fun rounds hrounds => ?_, hremoved, ?_⟩
  · exact hsteps.execute_eq hlast .finished rfl rfl (by omega)
  · obtain ⟨begun, hdriven⟩ := Run.Drives.step r₂ (hsteps.driven .refl)
    rw [hlast] at hdriven
    exact hdriven.tracked.1

/-- **A loop that is gone when its removal is due aborts the run.** -/
theorem exists_aborted {before after : List RuleKey} {key : RuleKey}
    (hfinalize : Grammar.finalize.apply g = (.ok (), g₀)) (hintact : g₀.Intact)
    (hloops : loops g = before ++ key :: after) (hbefore : ∀ key ∈ before, key ∈ g₀.outline.rules)
    (hkey : key ∉ g₀.outline.rules) (config : RunConfig) :
    ∃ r, (∀ rounds, 3 + before.length ≤ rounds →
        (Run.execute Procedure.library rounds).apply
          (Procedure.start .removeLoops (.ofGrammar g) config) = (.error (.unknownRule key), r)) ∧
      r.phase = .aborted := by
  obtain ⟨r₁, hfirst, h₁⟩ := exists_removing hfinalize hintact config
  have hnodup : ([] ++ before).Nodup :=
    (nodup_loops g).sublist (hloops ▸ List.sublist_append_left before _)
  rw [hloops] at h₁
  obtain ⟨r₂, hremovals, h₂⟩ := h₁.stepsTo hbefore hnodup
  obtain ⟨r, hlast, haborted⟩ := h₂.fails hkey
  exact ⟨r, fun rounds hrounds => (hfirst.trans hremovals).execute_eq hlast (.failed _) rfl rfl
    (by omega), haborted⟩

end LoopRemoval

end Chronicle
