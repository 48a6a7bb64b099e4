import Chronicle.Proofs.Grammar.Rewriting
import Chronicle.Proofs.Run.Conduct
import Chronicle.Proofs.Run.Records
import Chronicle.Proofs.Snapshot
/-!
What the tags in a record tell about its step.

Three grammars belong to a step: the one that its program began on, the one in its record, and the
one in the archive that it hands on.  If the program only rewrites the grammar, the tags in the
record tell how the first became the second, and what becomes of it in the third.

The step before has a part in it, since a hook may leave any tags.  Without one the program begins
on what was read from an archive, where all tags have faded.  The record is there whatever becomes
of the archive, and whatever the hook of the step does, since that works on the state handed on.
-/

namespace Chronicle

variable {P : Type}

/-- Of the grammar at work the request makes what rewriting makes of it. -/
def Request.Rewrites (β : Type) (request : Request P β) (run : Run P) : Prop :=
  ∀ s, run.snapshotAtWork = .ok s → s.grammar.Rewritten (request.change run s).grammar

/-- Editing the grammar by one operation that rewrites is such a request. -/
theorem Request.rewrites_edit (op : Grammar.Operation) (hop : op.Rewrites) (run : Run P) :
    Request.Rewrites _ (.editSnapshot (Snapshot.editGrammar op.edit)) run := by
  intro s _
  refine ⟨[op], ?_, rfl⟩
  simpa using hop

theorem Script.Always.rewritten {α : Type} {script : Script P α} {run : Run P} {s : Snapshot}
    (h : script.Always Request.Rewrites run) (hwork : run.snapshotAtWork = .ok s) :
    s.grammar.Rewritten (script.change run s).grammar := by
  have hkeeps : script.run.Always
      (Request.Keeps fun s' => s.grammar.Rewritten s'.grammar) run :=
    Action.Always.mono h fun _ _ _ hrewrites s' hwork' hs' => hs'.trans (hrewrites s' hwork')
  exact hkeeps.change_keeps hwork (.refl _)

namespace Run

variable {library : Library P} {r b : Run P} {begun : List (Run P)} {initial s : Snapshot}
  {root job : Job P} {config : RunConfig} {done : List NodeId} {jobs rest : List (Job P)}
  {state : SnapshotState}

/-- The step that is begun in `b` is executed: it can be opened, and its program succeeds. -/
structure Executes (library : Library P) (b : Run P) : Prop where
  opens : ∃ label, openStep.apply b = (.ok label, b.opened)
  program : (performCurrent library).apply b.opened = (.ok (), b.returned library)

/-- The current step has a step before it, and that one scheduled no hook. -/
def FollowsNoHook (b : Run P) : Prop :=
  ∃ before n, b.timeline.before b.current = some before ∧ b.timeline.node? before = some n ∧
    n.hook = none

/-! ### The grammar at the beginning -/

/-- What is read from an archive has lasting tags only. -/
theorem tagged_of_archive {data : SnapshotData} {left : Snapshot}
    (harchive : left.archive = .ok data) (hmaterialize : data.materialize = .ok s) :
    s.grammar.Tagged (· ∈ Tag.lasting) := by
  obtain ⟨-, rfl⟩ := Snapshot.archive_eq_ok.mp harchive
  obtain ⟨g, hgrammar, hmaterialize⟩ := exists_of_bind_eq_ok hmaterialize
  obtain ⟨bag, -, hmaterialize⟩ := exists_of_bind_eq_ok hmaterialize
  obtain rfl := Except.ok.inj hmaterialize
  exact Grammar.tagged_of_ofData (Grammar.tagged_settled left.grammar).toData hgrammar

/-- The step before the current one is the last that was told. -/
theorem Between.last_eq (h : b.Between done jobs state) {before : NodeId}
    (hbefore : b.timeline.before b.current = some before) : done.getLast? = some before := by
  obtain ⟨⟨f, ids, hshape, horder, hfront⟩, -, -⟩ := h.stands
  cases hfront with
  | next => rw [← hshape.before_eq horder, hbefore]
  | last => exact absurd rfl h.waiting

/-- After a step without a hook the program begins on what was read from the archive. -/
theorem FollowsNoHook.exists_archive (h : b.FollowsNoHook) {visits : List (Visit P)}
    (hbetween : b.Between (visits.map (·.id)) jobs state) (htold : Told library initial visits b)
    (hawaited : Awaited library initial visits state) (hopens : state.opens = .ok s) :
    visits ≠ [] ∧
      ∃ left : Snapshot, ∃ data, left.archive = .ok data ∧ data.materialize = .ok s := by
  obtain ⟨before, n, hbefore, hn, hhook⟩ := h
  have hlast := hbetween.last_eq hbefore
  rw [List.getLast?_map] at hlast
  obtain ⟨v, hv, rfl⟩ := Option.map_eq_some_iff.mp hlast
  have hmem := List.mem_of_getLast? hv
  have hcore := (htold.made v hmem).node
  rw [Timeline.core?, hn, Option.map_some, Option.some.injEq] at hcore
  have hnone : v.work.hook = none := (congrArg Node.hook hcore).symm.trans hhook
  obtain ⟨data, s₀, harchive, hmaterialize, hhands⟩ := hawaited.2 v hv s hopens
  rw [hnone] at hhands
  dsimp only at hhands
  refine ⟨List.ne_nil_of_mem hmem, v.left, data, harchive, ?_⟩
  rw [hhands]
  exact hmaterialize

/-! ### The record and the archive -/

/-- The current node waits for the job that comes next. -/
theorem Stands.program_eq (h : r.Stands done (job :: rest) state) {n : Node (Job P)}
    (hn : r.timeline.node? r.current = some n) : n.program = job := by
  obtain ⟨-, -, -, -, -, -, hawaits, -, -, -⟩ := h.current_eq
  have hcore := hawaits.1
  rw [Timeline.core?, hn, Option.map_some, Option.some.injEq] at hcore
  exact congrArg Node.program hcore

/-- What was handed on is at the next node, or at the end of the run. -/
theorem Stands.stateIn_eq (h : r.Stands done jobs state) :
    r.stateIn (if !jobs.isEmpty then .node r.current else .final) = state := by
  obtain ⟨⟨f, ids, hshape, horder, hfront⟩, -, -⟩ := h
  cases hfront with
  | next final current queue =>
      obtain ⟨n, hn, hcore⟩ := Option.map_eq_some_iff.mp current.1
      have hstate : n.state = state := congrArg Node.state hcore
      simp [stateIn, hn, hstate]
  | last final => exact final

/-- A step that is closed hands the archive of its state on. -/
theorem Stands.exists_archive (h : r.Stands done (job :: rest) state) (hopens : state.opens = .ok s)
    {closed : Node (Job P)} {more : Bool}
    (hclosed : ((closeStep r.current).apply (r.returned library)).1 = .ok (closed, more)) :
    ∃ archive, (r.workOf library job s).snapshot.archive = .ok archive ∧
      (r.handedOn library).stateIn
        (if more then .node (r.handedOn library).current else .final) = .archived archive := by
  obtain ⟨archive, hcloses⟩ := h.exists_closes hopens (Prod.ext hclosed rfl)
  obtain ⟨n, hclose, -, hhanded, -⟩ := h.handedOn_eq hopens hcloses
  rw [hclose] at hclosed
  obtain ⟨-, rfl⟩ := Prod.mk.inj (Except.ok.inj hclosed)
  exact ⟨archive, archive_of_closes hcloses, hhanded.stateIn_eq⟩

/-- Any step but the first that is executed leaves its record, and the record stays. -/
theorem Driven.recordAt_executed (h : Driven library (ofJob initial root config) begun r)
    (hb : b ∈ begun) (hexecutes : b.Executes library) (hstands : b.Stands done (job :: rest) state)
    (hdone : done ≠ []) (hopens : state.opens = .ok s) :
    r.recordAt b.current = .ok (some (b.workOf library job s).snapshot.toData) := by
  have hrecorded : (b.handedOn library).timeline.core? b.current
      = some ((b.workOf library job s).node.recorded
        (b.workOf library job s).snapshot.toData) := by
    rw [hstands.core?_handedOn hopens, if_neg (by simp [hdone])]
  obtain ⟨begun', hbegun, hidle, honward⟩ := h.exists_begun hb
  obtain ⟨label, hopen⟩ := hexecutes.opens
  have hlater : Onward (b.handedOn library) r := by
    refine Onward.trans ?_ honward
    refine Onward.of_timeline_eq ?_ (timeline_step hidle library)
    exact handedOn_onward (hbegun.since.2 hidle) hopen hexecutes.program
  have hcore := hlater.core b.current ⟨_, hrecorded, rfl⟩
  rw [hrecorded] at hcore
  obtain ⟨n, hn, hsame⟩ := Option.map_eq_some_iff.mp hcore
  have hstatus : n.status = .archived := congrArg Node.status hsame
  have hstate : n.state = .archived (b.workOf library job s).snapshot.toData :=
    congrArg Node.state hsame
  exact recordAt_of_node? hn hstatus hstate

/-- **Tags tell the truth about a step.**

Let a step of a run be executed whose predecessor scheduled no hook and whose program only rewrites
the grammar.  Then there is its record at every later time; what is called new in it was not in the
grammar that the program began on, and all of that grammar is still to be seen.  If the step hands
an archive on, what is missing there is what is called removed in the record, there is nothing else
in it than in the record, and only lasting tags are left.  A hook of the step works on the archive
only afterwards. -/
theorem tags_tell_the_truth (h : Driven library (ofJob initial root config) begun r)
    (hb : b ∈ begun) {n : Node (Job P)} (hn : b.timeline.node? b.current = some n)
    (hexecutes : b.Executes library) (hhook : b.FollowsNoHook)
    (hrewrites : (n.program.program library).Always Request.Rewrites b.opened) :
    ∃ given record recorded, b.opened.snapshotAtWork = .ok given ∧
      r.recordAt b.current = .ok (some record) ∧ Grammar.ofData record.grammar = .ok recorded ∧
      Grammar.TellsStart given.grammar recorded ∧
      ∀ closed more, ((closeStep b.current).apply (b.returned library)).1 = .ok (closed, more) →
        ∃ archive handed, (b.handedOn library).stateIn
            (if more then .node (b.handedOn library).current else .final) = .archived archive ∧
          Grammar.ofData archive.grammar = .ok handed ∧ Grammar.TellsEnd recorded handed := by
  obtain ⟨begun', hbegun, hidle, -⟩ := h.exists_begun hb
  cases hbegun.standing with
  | finished _ _ _ _ _ closed => simp [closed.phase] at hidle
  | aborted phase => simp [phase] at hidle
  | idle visits jobs state runs told between awaited =>
      obtain ⟨job, rest, rfl⟩ := List.exists_cons_of_ne_nil between.waiting
      have hstands := between.stands
      obtain ⟨label, hopen⟩ := hexecutes.opens
      obtain ⟨s, hopens⟩ := hstands.exists_opens hopen
      obtain ⟨hvisits, left, data, harchive, hmaterialize⟩ :=
        hhook.exists_archive between told awaited hopens
      have hdone : visits.map (·.id) ≠ [] := by simpa using hvisits
      obtain rfl := hstands.program_eq hn
      -- The program begins on `s` and leaves `w`.
      have hgiven : b.opened.snapshotAtWork = .ok s :=
        (hstands.opened_eq hopens).2.1.snapshotAtWork_eq
      generalize hw : b.workOf library n.program s = w
      have hleft : w.snapshot = (n.program.program library).change b.opened s := by
        rw [← hw, workOf, Script.work_snapshot]
        rfl
      have hrewritten := hrewrites.rewritten hgiven
      rw [← hleft] at hrewritten
      have hsound : w.snapshot.grammar.Sound :=
        hrewritten.sound (Snapshot.coherent_of_materialize hmaterialize).grammar
      have hstart := hrewritten.tellsStart (tagged_of_archive harchive hmaterialize)
      refine ⟨s, w.snapshot.toData, w.snapshot.grammar, hgiven, ?_, hsound.ofData_toData, hstart,
        fun closed more hclosed => ?_⟩
      · rw [← hw]
        exact h.recordAt_executed hb hexecutes hstands hdone hopens
      · obtain ⟨archive, harchive, hstate⟩ := hstands.exists_archive hopens hclosed
        rw [hw] at harchive
        exact ⟨archive, w.snapshot.grammar.settled, hstate,
          Snapshot.ofData_of_archive hsound harchive, Grammar.tellsEnd_settled _⟩

/-- The second program takes a symbol in and proposes to take another one out. -/
def rewriting : Nat → Script Nat Unit
  | 0 => Script.schedule 1
  | _ => do
    Script.editSnapshot (Snapshot.editGrammar (Grammar.Operation.addSymbol "T").edit)
    Script.editSnapshot (Snapshot.editGrammar (Grammar.Operation.removeSymbol "a").edit)

/-- A snapshot with a nonterminal and a terminal. -/
def twoSymbols : Snapshot :=
  .ofGrammar ⟨.ofList [("S", .none)], .ofList [("a", .none)], .empty, "S"⟩

/-- The grammar in the record of the second step. -/
def rewrittenSymbols : Grammar :=
  ⟨.ofList [("S", .none), ("T", .new)], .ofList [("a", .removed)], .empty, "S"⟩

theorem always_rewriting (run : Run Nat) : (rewriting 1).Always Request.Rewrites run :=
  .bind (.demand (Request.rewrites_edit (.addSymbol "T") trivial run)) fun _ run =>
    .demand (Request.rewrites_edit (.removeSymbol "a") trivial run)

/-- The second step of that run: its record, and what it hands on. -/
theorem tags_tell_the_truth_rewriting :
    ∃ begun r b, Driven rewriting (ofJob twoSymbols (.named 0) {}) begun r ∧ b ∈ begun ∧
      r.recordAt b.current = .ok (some (Snapshot.ofGrammar rewrittenSymbols).toData) ∧
      ∃ given handed, Grammar.TellsStart given rewrittenSymbols ∧
        Grammar.TellsEnd rewrittenSymbols handed := by
  have hfirst := (Driven.refl : Driven rewriting (ofJob twoSymbols (.named 0) {}) [] _).step rfl
  generalize hb : ((step rewriting).apply (ofJob twoSymbols (.named 0) {})).2 = b at hfirst
  have hidle : b.phase = .idle := by subst hb; decide +kernel
  have hopen : (openStep.apply b).1 = .ok b.nextLabel := by subst hb; decide +kernel
  have hprogram : ((performCurrent rewriting).apply b.opened).1 = .ok () := by
    subst hb; decide +kernel
  have hbefore : b.timeline.before b.current = some Timeline.root := by subst hb; decide +kernel
  have hroot : (b.timeline.node? Timeline.root).map (·.hook) = some none := by
    subst hb; decide +kernel
  have hnode : (b.timeline.node? b.current).map (·.program) = some (.named 1) := by
    subst hb; decide +kernel
  have hcloses : ((closeStep b.current).apply (b.returned rewriting)).1.isOk = true := by
    subst hb; decide +kernel
  have hrecord : ((step rewriting).apply b).2.recordAt b.current
      = .ok (some (Snapshot.ofGrammar rewrittenSymbols).toData) := by subst hb; decide +kernel
  have hread : Grammar.ofData (Snapshot.ofGrammar rewrittenSymbols).toData.grammar
      = .ok rewrittenSymbols := by decide +kernel
  obtain ⟨m, hm, hhook⟩ := Option.map_eq_some_iff.mp hroot
  obtain ⟨n, hn, hjob⟩ := Option.map_eq_some_iff.mp hnode
  obtain ⟨given, record, recorded, -, hrecord', hrecorded, hstart, hend⟩ :=
    tags_tell_the_truth (hfirst.step hidle) (b := b) (by simp) hn
      ⟨⟨_, Prod.ext hopen rfl⟩, Prod.ext hprogram rfl⟩ ⟨_, m, hbefore, hm, hhook⟩
      (hjob ▸ always_rewriting b.opened)
  rw [hrecord, Except.ok.injEq, Option.some.injEq] at hrecord'
  rw [← hrecord', hread, Except.ok.injEq] at hrecorded
  subst hrecorded
  match hclosed : ((closeStep b.current).apply (b.returned rewriting)).1, hcloses with
  | .ok (closed, more), _ =>
      obtain ⟨archive, handed, -, -, htells⟩ := hend closed more hclosed
      exact ⟨_, _, b, hfirst.step hidle, by simp, hrecord, given.grammar, handed, hstart, htells⟩

end Run

end Chronicle
