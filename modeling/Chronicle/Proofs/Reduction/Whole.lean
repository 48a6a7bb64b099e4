import Chronicle.Proofs.Reduction.Steps
/-!
The whole reduction.

The phases of the reduction are put together here: what is found after the generating phase is the
part of the outline within the productive nonterminals, and after the other one the part of that
within the reachable ones.  Nothing is emphasised in the end, so there is only one grammar that the
reduction can lead to: the untagged one with the reduced outline.  Beside that it is said which
steps are made, at which places, and what they leave there (`exists_runs`).
-/

namespace Chronicle

namespace Reduction

open Outline

variable {s : Snapshot} {o : Outline} {known : Set String}

/-! ### The phases -/

/-- The places of a phase with so many rounds. -/
def Phase.places (φ : Phase) (k : Nat) : List (List Nat) :=
  [φ.place] :: (List.range (k + 2)).map fun j => [φ.place, j + 1]

/-- What stands at which place of a phase. -/
inductive Phase.At (φ : Phase) (o : Outline) (k : Nat) :
    List Nat → Plan.Entry Procedure.Step → Prop
  | enter (record : SnapshotData) : At φ o k [φ.place] ⟨job φ.enter, record⟩
  | round {j : Nat} {e : Plan.Entry Procedure.Step} (hj : j ≤ k) (shown : φ.Shown o j e) :
      At φ o k [φ.place, j + 1] e
  | leave (record : SnapshotData) : At φ o k [φ.place, k + 2] ⟨job φ.leave, record⟩

theorem Phase.forall₂_at {φ : Phase} {k : Nat} {log : List (Plan.Entry Procedure.Step)}
    (h : List.Forall₂ (φ.Shown o) (List.range (k + 1)) log) (before behind : SnapshotData) :
    List.Forall₂ (φ.At o k) (φ.places k)
      ([⟨job φ.enter, before⟩] ++ (log ++ [⟨job φ.leave, behind⟩])) := by
  have hrounds : List.Forall₂ (φ.At o k)
      ((List.range (k + 1)).map fun j => [φ.place, j + 1]) log := by
    rw [List.forall₂_map_left_iff]
    refine ((List.forall₂_and_left _ _).mpr ⟨fun j hj => List.mem_range.mp hj, h⟩).imp ?_
    exact fun j e hj => .round (Nat.le_of_lt_succ hj.1) hj.2
  have hleave : List.Forall₂ (φ.At o k) [[φ.place, k + 2]] [⟨job φ.leave, behind⟩] :=
    .cons (.leave behind) .nil
  rw [Phase.places, List.range_succ, List.map_append]
  exact .cons (.enter before) (List.rel_append hrounds hleave)

/-- The phase that removes what is not generating. -/
theorem exists_log_generating (made : Nat) (rest : List (Job Procedure.Step))
    (h : s.Presents o none) (hmore : rest ≠ []) :
    ∃ k made' s' log, generatingPhase.IsLast o k ∧
      Plan.Log Procedure.library ⟨made, job .removeNongenerating :: rest, s⟩ log
        ⟨made', rest, s'⟩ ∧
      List.Forall₂ (generatingPhase.At o k) (generatingPhase.places k) log ∧
      s'.Presents (o.within o.productive) (some (generatingId, {x | o.Generating x})) := by
  have hclosed : o.Closed := h.amid.closed
  have hnamed : o.Named := h.outline ▸ h.intact.named
  have hbound : {x | o.Generating x} ⊆ o.nonterminals := fun x hx => Generating.mem hclosed hx
  obtain ⟨before, s₁, hwrites₁, h₁⟩ := takes_removeNongenerating made rest h
  obtain ⟨k, made₂, s₂, log, hlast, hlog₂, h₂, hall⟩ := Phase.exists_log opens_generatingPhase
    grows_generatingPhase {x | o.Generating x} hbound (generatingOver_generating (by simp))
    (fun known hknown => generatingOver_generating hknown)
    (fun known _ hfixed x hx => Generating.mem_of_closed hx hfixed) h₁
    (List.cons_ne_nil (job .removeOutsideGenerating) rest)
  obtain ⟨behind, s₃, hwrites₃, h₃⟩ := takes_removeOutsideGenerating made₂ rest h₂ hbound hmore
  have hkeep : insert o.start {x | o.Generating x} = o.productive := by
    ext x
    rw [mem_productive hclosed hnamed, Set.mem_insert_iff, or_comm]
    rfl
  rw [hkeep] at h₃
  exact ⟨k, _, s₃, _, hlast, (Plan.Log.single hwrites₁).trans (hlog₂.trans (.single hwrites₃)),
    Phase.forall₂_at hall before behind, h₃⟩

/-- The phase that removes what is not reachable. -/
theorem exists_log_reachable (made : Nat) (rest : List (Job Procedure.Step))
    (h : s.Presents o (some (generatingId, known))) (hmore : rest ≠ []) :
    ∃ k made' s' log, reachablePhase.IsLast o k ∧
      Plan.Log Procedure.library ⟨made, job .removeUnreachable :: rest, s⟩ log
        ⟨made', rest, s'⟩ ∧
      List.Forall₂ (reachablePhase.At o k) (reachablePhase.places k) log ∧
      s'.Presents (o.within o.Reachable) (some (reachableId, o.Reachable)) := by
  have hstart : o.start ∈ o.nonterminals := h.amid.closed.start
  have hbound : o.Reachable ⊆ o.nonterminals := fun x hx => ReachableBy.mem hstart hx
  obtain ⟨before, s₁, hwrites₁, h₁⟩ := takes_removeUnreachable made rest h
  obtain ⟨k, made₂, s₂, log, hlast, hlog₂, h₂, hall⟩ := Phase.exists_log opens_reachablePhase
    grows_reachablePhase o.Reachable hbound (Set.singleton_subset_iff.mpr .start)
    (fun known hknown => reachableOver_reachable hknown)
    (fun known hinit hfixed x hx => ReachableBy.mem_of_closed hx (hinit rfl) hfixed) h₁
    (List.cons_ne_nil (job .removeOutsideReachable) rest)
  obtain ⟨behind, s₃, hwrites₃, h₃⟩ :=
    takes_removeOutsideReachable made₂ rest h₂ hbound .start hmore
  exact ⟨k, _, s₃, _, hlast, (Plan.Log.single hwrites₁).trans (hlog₂.trans (.single hwrites₃)),
    Phase.forall₂_at hall before behind, h₃⟩

/-- Nothing in the grammar is emphasised. -/
def Plain (g : Grammar) : Prop := ∀ e tag, g.tag? e = some tag → tag = .none

/-- The last step leaves an untagged grammar and no set. -/
theorem concludes_cleanUp (made : Nat) (h : s.Presents o (some (reachableId, known))) :
    ∃ (g : Grammar) (record : SnapshotData),
      Plan.Concludes Procedure.library ⟨made, [job .cleanUp], s⟩ ⟨job .cleanUp, record⟩
        (Snapshot.ofGrammar g).toData ∧ g.Intact ∧ g.outline = o ∧ Plain g := by
  obtain ⟨_, s₁, happly, hgrammar, hamid⟩ := wipe_yields h.amid
  have hclosed : (o.without ∅).Closed := by
    rw [o.without_empty]
    exact hamid.closed
  obtain ⟨harchive, hintact, houtline⟩ := hamid.archive_eq hclosed
  rw [hamid.structures] at harchive
  refine ⟨s₁.grammar.settled, _, .step (makes_edit rfl happly) harchive, hintact,
    houtline.trans o.without_empty, fun e tag htag => ?_⟩
  rw [Grammar.tag?_settled, hgrammar, Grammar.tag?_clearTags] at htag
  obtain ⟨faded, hkept, rfl⟩ := Option.map_eq_some_iff.mp htag
  obtain ⟨hoffered, hne⟩ := Option.filter_eq_some_iff.mp hkept
  obtain ⟨present, -, rfl⟩ := Option.map_eq_some_iff.mp hoffered
  have hpresent : present ≠ .removed := by
    intro heq
    subst heq
    simp [Tag.resolve] at hne
  rw [Tag.resolve, if_neg hpresent, if_pos rfl]
  rfl

/-- The root changes nothing, and hands on the grammar that was given, finalized. -/
theorem writes_opening {g g₀ : Grammar} (hfinalize : Grammar.finalize.apply g = (.ok (), g₀))
    (hintact : g₀.Intact) :
    Plan.Writes Procedure.library ⟨0, [.opening (.reduction .main)], .ofGrammar g⟩
      ⟨.opening (.reduction .main), (Snapshot.ofGrammar g).toData⟩ ⟨1, .initialState ::
        [.removeSelfLoops, .removeNongenerating, .removeUnreachable, .cleanUp].map job,
        .ofGrammar g₀⟩ := by
  have harchive : (Snapshot.ofGrammar g).archive = .ok (Snapshot.ofGrammar g₀).toData :=
    Snapshot.archive_of_finalize hfinalize
  exact .step (makes_opening _) (by simp) harchive (Snapshot.materialize_ofGrammar hintact)
    (by simp [Plan.following])

/-- The places of the whole reduction, with so many rounds in its phases. -/
def places (k m : Nat) : List (List Nat) :=
  [[], [1], [2]] ++ (generatingPhase.places k ++ (reachablePhase.places m ++ [[5]]))

/-- What stands at which place. -/
inductive At (o : Outline) (k m : Nat) : List Nat → Plan.Entry Procedure.Step → Prop
  | opening (record : SnapshotData) : At o k m [] ⟨.opening (.reduction .main), record⟩
  | initialState (record : SnapshotData) : At o k m [1] ⟨.initialState, record⟩
  | removeSelfLoops (record : SnapshotData) : At o k m [2] ⟨job .removeSelfLoops, record⟩
  | generating {path : List Nat} {e : Plan.Entry Procedure.Step}
      (h : generatingPhase.At o.dropLoops k path e) : At o k m path e
  | reachable {path : List Nat} {e : Plan.Entry Procedure.Step}
      (h : reachablePhase.At o.generatingPart m path e) : At o k m path e
  | cleanUp (record : SnapshotData) : At o k m [5] ⟨job .cleanUp, record⟩

/-- **The reduction leads to an untagged grammar with the reduced outline**, and what it leaves at
each place is known. -/
theorem exists_runs {g g₀ : Grammar} (hfinalize : Grammar.finalize.apply g = (.ok (), g₀))
    (hintact : g₀.Intact) :
    ∃ (g' : Grammar) (k m : Nat) (log : List (Plan.Entry Procedure.Step)),
      Plan.Runs Procedure.library (Snapshot.ofGrammar g').toData
        ⟨0, [.opening (.reduction .main)], .ofGrammar g⟩ log ∧
      (g'.Intact ∧ g'.outline = g₀.outline.reduced ∧ Plain g') ∧
      generatingPhase.IsLast g₀.outline.dropLoops k ∧
      reachablePhase.IsLast g₀.outline.generatingPart m ∧
      List.Forall₂ (At g₀.outline k m) (places k m) log := by
  have h₀ : (Snapshot.ofGrammar g₀).Presents g₀.outline none := ⟨hintact, rfl, rfl⟩
  have hwrites₀ := writes_opening hfinalize hintact
  obtain ⟨second, s₁, hwrites₁, h₁⟩ := takes_initialState 1
    ([.removeSelfLoops, .removeNongenerating, .removeUnreachable, .cleanUp].map job) h₀ (by simp)
  obtain ⟨third, s₂, hwrites₂, h₂⟩ := takes_removeSelfLoops 2
    ([.removeNongenerating, .removeUnreachable, .cleanUp].map job) h₁ (by simp)
  obtain ⟨k, made₃, s₃, log₃, hk, hlog₃, hat₃, h₃⟩ := exists_log_generating 3
    ([.removeUnreachable, .cleanUp].map job) h₂ (by simp)
  have hpart : g₀.outline.dropLoops.within g₀.outline.dropLoops.productive
      = g₀.outline.generatingPart := by
    rw [generatingPart, productive_dropLoops]
  rw [hpart] at h₃
  obtain ⟨m, made₄, s₄, log₄, hm, hlog₄, hat₄, h₄⟩ :=
    exists_log_reachable made₃ ([.cleanUp].map job) h₃ (by simp)
  obtain ⟨g', last, hconcludes, hresult⟩ := concludes_cleanUp made₄ h₄
  have hwhole := Plan.Runs.step hwrites₀ (.step hwrites₁ (.step hwrites₂
    (hlog₃.runs (hlog₄.runs (.last hconcludes)))))
  refine ⟨g', k, m, _, hwhole, hresult, hk, hm, ?_⟩
  have hgenerating := hat₃.imp fun _ _ => At.generating (o := g₀.outline) (k := k) (m := m)
  have hreachable := hat₄.imp fun _ _ => At.reachable (o := g₀.outline) (k := k) (m := m)
  have hcleanUp : List.Forall₂ (At g₀.outline k m) [[5]] [⟨job .cleanUp, last⟩] :=
    .cons (.cleanUp last) .nil
  exact .cons (.opening _) (.cons (.initialState second) (.cons (.removeSelfLoops third)
    (List.rel_append hgenerating (List.rel_append hreachable hcleanUp))))

end Reduction

end Chronicle
