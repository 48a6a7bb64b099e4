import Chronicle.Procedure.Basic
import Chronicle.Proofs.LoopRemoval.Edits
import Chronicle.Proofs.Run.Turns
/-!
The steps of loop removal, one by one.

Behind the first two steps the run is `Removing`: it waits between two steps, at the stage that is
reached by the loops that are gone, with the others in the queue, and every loop that is gone has
its record.  A removing step takes one loop from the one list to the other
(`Removing.exists_next`), so the queue is used up by as many steps as it is long
(`Removing.stepsTo`).  The step behind these is the last (`Removing.exists_last`).
-/

namespace Chronicle

namespace LoopRemoval

variable {g g₀ : Grammar} {s s' : Snapshot} {d d' : Scratch} {gone before rest : List RuleKey}
  {key : RuleKey} {done : List NodeId} {r r' : Run Procedure.Step} {t t' : Timeline (Job Procedure.Step)}

/-- The job of a step. -/
def job (step : Step) : Job Procedure.Step := .named (.loopRemoval step)

/-- The job that the run begins with. -/
def opening : Job Procedure.Step := .opening (.loopRemoval .main)

/-! ### What the programs make of their steps -/

/-- What is scheduled for the loops in the queue. -/
def pending (queue : List RuleKey) : List (Job Procedure.Step) :=
  (if queue = [] then [] else [job .removeOne]) ++ [job .done]

theorem turns_schedule (queue : List RuleKey) (d : Scratch) (w : Work Procedure.Step) :
    Script.Turns (do
        if !queue.isEmpty then Script.schedule (.loopRemoval .removeOne)
        Script.schedule (.loopRemoval .done)) [] d w () d
      { w with scheduled := w.scheduled ++ pending queue } := by
  cases queue with
  | nil => exact .schedule _ _ _
  | cons key rest =>
      have hboth : Script.Turns (do
          Script.schedule (Procedure.Step.loopRemoval .removeOne)
          Script.schedule (Procedure.Step.loopRemoval .done)) [] d w () d _ :=
        .bind (.schedule _ _ _) (.schedule _ _ _)
      rwa [List.append_assoc] at hboth

theorem turns_opening (g : Grammar) (d : Scratch) :
    ∃ bag, bag.HoldsSet hadLoopsId ∅ ∅ ∧
      opening.Turns Procedure.library [] d (.ofGrammar g) (.initialState :: pending (loops g)) false
        (d.insert .rules queueKey (loops g)) ⟨g, bag⟩ := by
  obtain ⟨bag, hrecord, hholds⟩ := recordLoop_none (s := .ofGrammar g) rfl
  refine ⟨bag, hholds, fun label => ⟨"remove loops", ?_⟩⟩
  exact .schedule_bind (.bind (.setName _ _ _) (.bind (.editSnapshot hrecord _)
    (.bind (.readSnapshot _ _) (.bind (.editScratch _ _ _) (turns_schedule _ _ _)))))

theorem turns_initialState (done : List NodeId) (d : Scratch) (s : Snapshot) :
    Job.initialState.Turns Procedure.library done d s [] false d s :=
  fun _ => ⟨_, .setName _ _ _⟩

theorem turns_done (done : List NodeId) (d : Scratch) (s : Snapshot) :
    (job .done).Turns Procedure.library done d s [] false d s :=
  fun _ => ⟨_, .setName _ _ _⟩

/-- A removing step is repeated as long as there are loops in the queue. -/
theorem turns_removeOne {more : Bool}
    (h : removeNext.apply (s, d) = (.ok (some (key, more)), (s', d'))) (done : List NodeId) :
    (job .removeOne).Turns Procedure.library done d s [] more d' s' := by
  intro label
  refine ⟨"remove the production " ++ key.text, .bind (.editParts h) ?_⟩
  cases more with
  | true => exact .bind (.setName _ _ _) (.requestRepeat _ _)
  | false => exact .bind (.setName _ _ _) (.pure () _ _)

theorem fails_removeOne {e : EngineError} (h : (removeNext.apply (s, d)).1 = .error e)
    (done : List NodeId) (label : Label) :
    ((job .removeOne).program Procedure.library).Fails done d (.begun (job .removeOne) label s) e :=
  .bind (.editParts h) _

/-! ### Between the steps -/

/-- The node has the record of the removal of a loop after those of `gone`. -/
def RecordsRemoval (t : Timeline (Job Procedure.Step)) (g₀ : Grammar) (gone : List RuleKey)
    (key : RuleKey) (id : NodeId) : Prop :=
  ∃ data g', t.HasRecord id data ∧ Grammar.ofData data.grammar = .ok g' ∧
    ∀ e, g'.tag? e = if e = .rule key then some .removed else tagsWithout g₀ gone e

/-- The nodes have the records of the removals, one after the other. -/
inductive Records (t : Timeline (Job Procedure.Step)) (g₀ : Grammar) :
    List RuleKey → List NodeId → Prop
  | nil : Records t g₀ [] []
  | concat {gone : List RuleKey} {ids : List NodeId} {key : RuleKey} {id : NodeId}
      (h : Records t g₀ gone ids) (record : RecordsRemoval t g₀ gone key id) :
      Records t g₀ (gone ++ [key]) (ids ++ [id])

namespace Records

variable {ids : List NodeId}

theorem length_eq (h : Records t g₀ gone ids) : ids.length = gone.length := by
  induction h with
  | nil => rfl
  | concat _ _ ih => rw [List.length_append, List.length_append, ih]; rfl

/-- Records stay as long as their nodes do. -/
theorem frame (h : Records t g₀ gone ids) (hcore : ∀ q ∈ ids, t'.core? q = t.core? q) :
    Records t' g₀ gone ids := by
  induction h with
  | nil => exact .nil
  | concat h record ih =>
      obtain ⟨data, g', hrecord, hrest⟩ := record
      refine (ih fun q hq => hcore q (by simp [hq])).concat ⟨data, g', ?_, hrest⟩
      exact hrecord.frame (hcore _ (by simp))

/-- The record of each of the removals. -/
theorem exists_of_getElem? (h : Records t g₀ gone ids) {i : Nat} (hkey : gone[i]? = some key) :
    ∃ id, ids[i]? = some id ∧ RecordsRemoval t g₀ (gone.take i) key id := by
  induction h with
  | nil => simp at hkey
  | @concat gone ids last id h record ih =>
      have hlength := h.length_eq
      rcases Nat.lt_trichotomy i gone.length with hlt | rfl | hgt
      · rw [List.getElem?_append_left hlt] at hkey
        obtain ⟨id', hid', hrecord⟩ := ih hkey
        refine ⟨id', ?_, ?_⟩
        · rw [List.getElem?_append_left (hlength ▸ hlt), hid']
        · rwa [List.take_append_of_le_length hlt.le]
      · rw [List.getElem?_concat_length] at hkey
        obtain rfl := Option.some.inj hkey
        refine ⟨id, ?_, ?_⟩
        · rw [← hlength, List.getElem?_concat_length]
        · rwa [List.take_append_of_le_length le_rfl, List.take_length]
      · rw [List.getElem?_eq_none (by rw [List.length_append, List.length_singleton]; omega)] at hkey
        cases hkey

end Records

/-- The loops of `gone` are removed, and those of `rest` are still to be removed. -/
def Removing (g₀ : Grammar) (gone rest : List RuleKey) (r : Run Procedure.Step) : Prop :=
  ∃ root first ids state s d, r.Between (root :: first :: ids) (pending rest) state ∧
    state.opens = .ok s ∧ Stage g₀ gone s ∧ r.Carries d ∧ d.get? .rules queueKey = some rest ∧
    Records r.timeline g₀ gone ids

/-- All loops are removed, and the run is finished. -/
def Removed (g₀ : Grammar) (gone : List RuleKey) (r : Run Procedure.Step) : Prop :=
  ∃ root first ids last final s, r.Closed (root :: first :: ids ++ [last]) (.archived final) ∧
    r.timeline.Level ∧ final.materialize = .ok s ∧ Stage g₀ gone s ∧
    Records r.timeline g₀ gone ids

theorem following_once (job : Job Procedure.Step) (kids rest : List (Job Procedure.Step)) :
    Plan.following job kids false rest = kids ++ rest := by
  simp [Plan.following]

theorem following_pending (queue : List RuleKey) :
    Plan.following (job .removeOne) [] (!queue.isEmpty) [job .done] = pending queue := by
  cases queue <;> rfl

/-- The first two steps. -/
theorem exists_removing (hfinalize : Grammar.finalize.apply g = (.ok (), g₀))
    (hintact : g₀.Intact) (config : RunConfig) :
    ∃ r, Run.StepsTo Procedure.library 2 (Procedure.start .removeLoops (.ofGrammar g) config) r ∧
      Removing g₀ [] (loops g) r := by
  obtain ⟨bag, hbag, hturns⟩ := turns_opening g .empty
  obtain ⟨data₁, s₁, harchive₁, hmaterialize₁, hstage₁⟩ :=
    exists_first (s := ⟨g, bag⟩) hfinalize hintact hbag
  obtain ⟨r₁, hstep₁, hbetween₁, hcarries₁, -, -⟩ :=
    (Run.between_ofJob (.ofGrammar g) opening config).turn_more (Run.carries_ofJob _ _ _) rfl hturns
      (by simp) harchive₁ (by simp [Plan.following])
  rw [following_once, List.append_nil] at hbetween₁
  obtain ⟨data₂, s₂, harchive₂, hmaterialize₂, hstage₂⟩ := hstage₁.renewed
  obtain ⟨r₂, hstep₂, hbetween₂, hcarries₂, -, -⟩ := hbetween₁.turn_more hcarries₁ hmaterialize₁
    (turns_initialState _ _ _) (by simp) harchive₂ (by simp [Plan.following, pending])
  rw [following_once, List.nil_append] at hbetween₂
  exact ⟨r₂, .next hstep₁ (.single hstep₂), _, _, [], _, s₂, _, hbetween₂, hmaterialize₂, hstage₂,
    hcarries₂, Scratch.get?_insert _ _ _ _, .nil⟩

/-- **A removing step.** -/
theorem Removing.exists_next (h : Removing g₀ gone (key :: rest) r) (hkey : key ∈ g₀.outline.rules)
    (hgone : key ∉ gone) :
    ∃ r', (Run.step Procedure.library).apply r = (.ok true, r') ∧
      Removing g₀ (gone ++ [key]) rest r' := by
  obtain ⟨root, first, ids, state, s, d, hbetween, hopens, hstage, hcarries, hqueue, hrecords⟩ := h
  obtain ⟨s', data, next, happly, hsound, htags, harchive, hmaterialize, hstage'⟩ :=
    hstage.exists_next hkey hgone hqueue
  have hjobs : pending (key :: rest) = [job .removeOne, job .done] := rfl
  rw [hjobs] at hbetween
  have hmore : Plan.following (job .removeOne) [] (!rest.isEmpty) [job .done] ≠ [] := by
    simp [Plan.following]
  obtain ⟨r', hstep, hbetween', hcarries', hkept, hrecord⟩ := hbetween.turn_more hcarries hopens
    (turns_removeOne happly _) (by simp) harchive hmore
  rw [following_pending] at hbetween'
  have hrecords' : Records r'.timeline g₀ (gone ++ [key]) (ids ++ [r.current]) := by
    refine (hrecords.frame fun q hq => hkept q (by simp [hq])).concat ?_
    exact ⟨_, s'.grammar, hrecord, hsound.ofData_toData, htags⟩
  exact ⟨r', hstep, root, first, ids ++ [r.current], _, next, _, hbetween', hmaterialize, hstage',
    hcarries', Scratch.get?_insert _ _ _ _, hrecords'⟩

/-- The last step changes nothing. -/
theorem Removing.exists_last (h : Removing g₀ gone [] r) :
    ∃ r', (Run.step Procedure.library).apply r = (.ok false, r') ∧ Removed g₀ gone r' := by
  obtain ⟨root, first, ids, state, s, d, hbetween, hopens, hstage, hcarries, -, hrecords⟩ := h
  obtain ⟨data, next, harchive, hmaterialize, hstage'⟩ := hstage.renewed
  obtain ⟨r', hstep, hclosed, hcarries', hkept, -⟩ :=
    hbetween.turn_last hcarries hopens (turns_done _ _ _) harchive
  exact ⟨r', hstep, root, first, ids, r.current, data, next, hclosed, hcarries'.level, hmaterialize,
    hstage', hrecords.frame fun q hq => hkept q (by simp [hq])⟩

/-- A loop that the first step listed is gone when its removal is due. -/
theorem Removing.fails (h : Removing g₀ gone (key :: rest) r) (hkey : key ∉ g₀.outline.rules) :
    ∃ r', (Run.step Procedure.library).apply r = (.error (.unknownRule key), r') ∧
      r'.phase = .aborted := by
  obtain ⟨root, first, ids, state, s, d, hbetween, hopens, hstage, hcarries, hqueue, -⟩ := h
  have hnone : s.grammar.tag? (.rule key) = none := by
    rw [hstage.tags, tagsWithout]
    split
    · rfl
    · cases htag : g₀.tag? (.rule key) with
      | none => rfl
      | some tag => exact absurd ⟨tag, htag⟩ hkey
  exact hbetween.turn_fails hcarries hopens
    (fails_removeOne (removeNext_fails hstage.set hqueue hnone) _)

/-- **The queue is used up**, loop by loop. -/
theorem Removing.stepsTo (h : Removing g₀ gone (before ++ rest) r)
    (hmem : ∀ key ∈ before, key ∈ g₀.outline.rules) (hnodup : (gone ++ before).Nodup) :
    ∃ r', Run.StepsTo Procedure.library before.length r r' ∧
      Removing g₀ (gone ++ before) rest r' := by
  induction before generalizing gone r with
  | nil => exact ⟨r, .refl r, by simpa using h⟩
  | cons key before ih =>
      have hgone : key ∉ gone := fun hc =>
        (List.nodup_append.mp hnodup).2.2 key hc key List.mem_cons_self rfl
      obtain ⟨r₁, hstep, h₁⟩ := h.exists_next (hmem key List.mem_cons_self) hgone
      obtain ⟨r', hsteps, h'⟩ := ih h₁ (fun key' hkey' => hmem key' (List.mem_cons_of_mem _ hkey'))
        (by rwa [List.append_assoc])
      rw [List.append_assoc] at h'
      exact ⟨r', .next hstep hsteps, h'⟩

end LoopRemoval

end Chronicle
