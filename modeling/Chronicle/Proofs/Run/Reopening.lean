import Chronicle.Proofs.Run.Conduct
import Chronicle.Proofs.Snapshot
/-!
Whether the steps of a finished run can be opened again.

A record is read as the program left the state, and the state that is handed on is read by what
comes next: the next step, or a hook.  Reading is where the members of symbol sets are looked at.
So of every step that something follows it is known that its state could be read, and what could be
read after the proposals were made true can also be read before, when there were more symbols.

Nothing reads what the last step leaves, unless it has a hook.  If a set holds something there that
is no symbol, the run is finished all the same, but its last record or its final state cannot be
read.

Programs can also spoil the grammar itself, by going on after a finalizing that failed; of those
that do not (`Orderly`) each one begins and ends on a coherent state.
-/

namespace Chronicle

variable {P : Type}

/-- Editing the state by one operation keeps it coherent, unless it finalizes and fails. -/
theorem Request.keeps_coherent {op : Snapshot.Operation} {run : Run P}
    (hop : op.Finalizes → ∀ s, run.snapshotAtWork = .ok s → (op.edit.apply s).1 = .ok ()) :
    Request.Keeps Snapshot.Coherent _ (.editSnapshot op.edit) run :=
  fun s hwork hs => hs.edit op fun hfinalizes => hop hfinalizes s hwork

namespace Run

variable {library : Library P} {r b : Run P} {begun : List (Run P)} {initial s : Snapshot}
  {root : Job P} {config : RunConfig} {visits : List (Visit P)} {v : Visit P} {id : NodeId}
  {data final : SnapshotData}

/-- The state of the node can be looked at again, and its data are the record. -/
def Reopens (r : Run P) (id : NodeId) : Prop :=
  ∃ s, r.snapshotAt id = .ok s ∧ r.recordAt id = .ok (some s.toData)

/-- In the step that was begun in `b` neither the program nor the hook asks for anything that does
not keep the state at work coherent.  Which they are is known to `r`, the run at its end. -/
structure Orderly (library : Library P) (r b : Run P) : Prop where
  program : ∀ n, r.timeline.node? b.current = some n →
    (n.program.program library).Always (Request.Keeps Snapshot.Coherent) b.opened
  hook : ∀ n hook, r.timeline.node? b.current = some n → n.hook = some hook →
    (hook.program library).Always (Request.Keeps Snapshot.Coherent) (b.hookOpened library)

/-! ### Coherent states all along -/

/-- The node of a visit has the program and the hook of its step. -/
theorem Visit.Made.exists_node (h : v.Made library r) :
    ∃ n, r.timeline.node? v.id = some n ∧ n.program = v.work.job ∧ n.hook = v.work.hook := by
  obtain ⟨n, hn, hcore⟩ := Option.map_eq_some_iff.mp h.node
  exact ⟨n, hn, congrArg Node.program hcore, congrArg Node.hook hcore⟩

theorem Visit.Made.left_coherent (h : v.Made library r) (horderly : Orderly library r v.run)
    (hgiven : v.given.Coherent) : v.left.Coherent := by
  obtain ⟨n, hn, hprogram, -⟩ := h.exists_node
  rw [h.left_eq, ← hprogram]
  exact (horderly.program n hn).change_keeps h.given hgiven

theorem Visit.Hooked.coherent {hook : Job P} {s₀ : Snapshot} (h : v.Hooked library hook s₀ s)
    (hmade : v.Made library r) (horderly : Orderly library r v.run)
    (hhook : v.work.hook = some hook) (hs₀ : s₀.Coherent) : s.Coherent := by
  obtain ⟨n, hn, -, hsame⟩ := hmade.exists_node
  rw [h.left]
  exact (horderly.hook n hook hn (hsame.trans hhook)).change_keeps h.given hs₀

theorem Visit.HandsOn.coherent (h : v.HandsOn library s) (hmade : v.Made library r)
    (horderly : Orderly library r v.run) : s.Coherent := by
  obtain ⟨data, s₀, -, hmaterialize, hhands⟩ := h
  have hs₀ := Snapshot.coherent_of_materialize hmaterialize
  cases hhook : v.work.hook with
  | none =>
      rw [hhook] at hhands
      exact hhands ▸ hs₀
  | some hook =>
      rw [hhook] at hhands
      exact Visit.Hooked.coherent hhands hmade horderly hhook hs₀

/-- Every program ends on a coherent state. -/
theorem Told.left_coherent (h : Told library initial visits r) (hinitial : initial.Coherent)
    (horderly : ∀ v ∈ visits, Orderly library r v.run) : ∀ v ∈ visits, v.left.Coherent := by
  have hgiven : ∀ v ∈ visits, v.given.Coherent := by
    refine List.IsChain.induction (fun v => v.given.Coherent) visits
      (List.IsChain.iff_mem.mp h.chain) (fun v next hnext _ => ?_) fun hne => ?_
    · obtain ⟨hv, -, hhands⟩ := hnext
      exact hhands.coherent (h.made v hv) (horderly v hv)
    · rw [h.first _ (List.head_mem_head? hne)]
      exact hinitial
  exact fun v hv => (h.made v hv).left_coherent (horderly v hv) (hgiven v hv)

/-! ### What has been read -/

/-- A record can be opened if the sets in it mention symbols only. -/
theorem Visit.Made.reopens (h : v.Made library r) (hleft : v.left.Coherent)
    (hmembers : v.left.MembersKnown) : r.Reopens v.id := by
  obtain ⟨n, hn, hcore⟩ := Option.map_eq_some_iff.mp h.node
  have hstate : n.state = .archived v.left.toData := congrArg Node.state hcore
  refine ⟨v.left.committed, ?_, ?_⟩
  · simp only [snapshotAt, Timeline.node_eq_ok.mpr hn, bind, Except.bind, hstate]
    exact hleft.materialize_toData hmembers
  · rw [Snapshot.toData_committed]
    exact h.recordAt_eq

/-- Where the archive can be read, so can the record. -/
theorem membersKnown_of_read {left : Snapshot} (hleft : left.Coherent)
    (harchive : left.archive = .ok data) (hmaterialize : data.materialize = .ok s) :
    left.MembersKnown := by
  obtain ⟨archived, harchived, rfl, hknown⟩ := hleft.exists_of_archive harchive
  exact hknown (harchived.materializes_iff.mp ⟨s, hmaterialize⟩)

/-- The end of the run holds the data of a coherent state.  If that can be read, or if a hook had to
read what the last program left, then the last record can be read. -/
theorem Visit.Ends.exists_final (h : v.Ends library final) (hmade : v.Made library r)
    (horderly : Orderly library r v.run) (hleft : v.left.Coherent) :
    ∃ s : Snapshot, s.Coherent ∧ final = s.toData ∧
      (s.MembersKnown ∨ v.work.hook ≠ none → v.left.MembersKnown) := by
  obtain ⟨data, harchive, hends⟩ := h
  cases hhook : v.work.hook with
  | none =>
      rw [hhook] at hends
      obtain ⟨archived, harchived, rfl, hknown⟩ := hleft.exists_of_archive harchive
      exact ⟨archived, harchived, hends, fun hor => hknown (hor.resolve_right (by simp))⟩
  | some hook =>
      rw [hhook] at hends
      obtain ⟨s₀, s, hmaterialize, hhooked, rfl⟩ := hends
      have hs₀ := Snapshot.coherent_of_materialize hmaterialize
      exact ⟨s, hhooked.coherent hmade horderly hhook hs₀, rfl,
        fun _ => membersKnown_of_read hleft harchive hmaterialize⟩

/-- What a step hands on to another one was read by it. -/
theorem Told.membersKnown_of_chain (h : Told library initial visits r)
    (hleft : ∀ v ∈ visits, v.left.Coherent) {front back : List (Visit P)} {next : Visit P}
    (hvisits : visits = front ++ v :: next :: back) : v.left.MembersKnown := by
  obtain ⟨data, s₀, harchive, hmaterialize, -⟩ :=
    List.isChain_iff_forall_rel_of_append_cons_cons.mp h.chain hvisits
  exact membersKnown_of_read (hleft v (by simp [hvisits])) harchive hmaterialize

/-- All visits can be opened again, the last one if the sets in what it left mention symbols
only. -/
theorem Told.reopens (h : Told library initial visits r)
    (hleft : ∀ v ∈ visits, v.left.Coherent) {last : Visit P} (hlast : visits.getLast? = some last)
    (hv : v ∈ visits) (hmembers : v = last → last.left.MembersKnown) : r.Reopens v.id := by
  refine (h.made v hv).reopens (hleft v hv) ?_
  by_cases heq : v = last
  · exact heq ▸ hmembers heq
  · -- Of a step that is not the last one the next has read what it left.
    obtain ⟨front, back, hsplit⟩ := List.append_of_mem hv
    cases back with
    | nil => simp [hsplit, heq] at hlast
    | cons next back => exact h.membersKnown_of_chain hleft hsplit

/-- At the end of a run all nodes are visited. -/
theorem Closed.exists_visit {state : SnapshotState} (h : r.Closed (visits.map (·.id)) state)
    {n : Node (Job P)} (hn : r.timeline.node? id = some n) : ∃ v ∈ visits, v.id = id := by
  obtain ⟨-, hchron, -, -, -⟩ := h.order_eq
  obtain ⟨⟨f, ids, hshape, -⟩, -, -⟩ := h.stands
  have hid : id ∈ r.timeline.chronological := by
    rw [hshape.chronological_eq]
    exact hshape.mem_iff.mpr ⟨n, hn⟩
  rw [hchron] at hid
  exact List.mem_map.mp hid

/-- **What can be opened again of a finished run.**

Whatever the steps of a run do to the sets and to the grammar, as long as none goes on after a
finalizing that failed: when the run is finished there is a final state, and every node can be
opened again with the data of its record, but for the last one if it has no hook.  That one and the
final state can be opened too exactly if the sets of the final state hold symbols only. -/
theorem finished_reopens (h : Driven library (ofJob initial root config) begun r)
    (hfinished : r.phase = .finished) (hinitial : initial.Coherent)
    (horderly : ∀ b ∈ begun, Orderly library r b) :
    ∃ final, r.finalSnapshot? = some final ∧
      (∀ id n, r.timeline.node? id = some n →
        (r.timeline.chronological.getLast? = some id → n.hook ≠ none) → r.Reopens id) ∧
      ((∀ id n, r.timeline.node? id = some n → r.Reopens id) ∧
          (∃ s, final.materialize = .ok s) ↔ final.MembersKnown) := by
  cases h.standing with
  | aborted phase => simp [phase] at hfinished
  | idle visits jobs state runs told between awaited => simp [between.phase] at hfinished
  | finished visits data last runs told closed isLast ends =>
      have horderly' : ∀ v ∈ visits, Orderly library r v.run := fun v hv =>
        horderly v.run (runs ▸ List.mem_map_of_mem hv)
      have hleft := told.left_coherent hinitial horderly'
      have hmem := List.mem_of_getLast? isLast
      obtain ⟨s, hs, rfl, hread⟩ :=
        ends.exists_final (told.made last hmem) (horderly' last hmem) (hleft last hmem)
      refine ⟨s.toData, closed.finalSnapshot?_eq, fun id n hn hhook => ?_, ?_⟩
      · obtain ⟨v, hv, rfl⟩ := closed.exists_visit hn
        refine told.reopens hleft isLast hv fun heq => hread (.inr ?_)
        subst heq
        obtain ⟨m, hm, -, hsame⟩ := (told.made v hv).exists_node
        obtain rfl : n = m := Option.some.inj (hn.symm.trans hm)
        rw [← hsame]
        refine hhook ?_
        obtain ⟨-, hchron, -, -, -⟩ := closed.order_eq
        rw [hchron, List.getLast?_map, isLast, Option.map_some]
      · rw [Snapshot.membersKnown_toData]
        constructor
        · exact fun hboth => hs.materializes_iff.mp hboth.2
        · refine fun hmembers => ⟨fun id n hn => ?_, hs.materializes_iff.mpr hmembers⟩
          obtain ⟨v, hv, rfl⟩ := closed.exists_visit hn
          exact told.reopens hleft isLast hv fun _ => hread (.inl hmembers)

/-- If no program of the library asks for anything that does not keep the state coherent, then no
step does. -/
theorem orderly_of_library
    (h : ∀ p run, (library p).Always (Request.Keeps Snapshot.Coherent) run) (r b : Run P) :
    Orderly library r b := by
  have hjob : ∀ (job : Job P) run,
      (job.program library).Always (Request.Keeps Snapshot.Coherent) run := by
    intro job run
    cases job with
    | named p => exact h p run
    | initialState => exact .demand fun s _ hs => hs
    | opening main => exact .bind (.demand fun s _ hs => hs) fun _ run => h main run
  exact ⟨fun n _ => hjob n.program b.opened, fun _ hook _ _ => hjob hook (b.hookOpened library)⟩

theorem symbolSet_ne_table : StructureKind.symbolSet ≠ .table := by decide

/-- The second program puts something into a set that is no symbol. -/
def straying : Nat → Script Nat Unit
  | 0 => Script.schedule 1
  | _ => do
    Script.editSnapshot
      (Snapshot.Operation.structures (.openContent .symbolSet "marks" "Marks")).edit
    Script.editSnapshot (Snapshot.Operation.structures (.editContent .symbolSet symbolSet_ne_table
      "marks" fun set => (SymbolSet.add set "x").2)).edit

theorem always_straying (p : Nat) (run : Run Nat) :
    (straying p).Always (Request.Keeps Snapshot.Coherent) run := by
  match p with
  | 0 => exact .bind (.demand fun s _ hs => hs) fun _ _ => trivial
  | p + 1 =>
      exact .bind (.demand (Request.keeps_coherent fun hc => hc.elim)) fun _ _ =>
        .demand (Request.keeps_coherent fun hc => hc.elim)

/-- The run of both programs: the first step can be opened again, but not all that there is. -/
theorem finished_reopens_straying :
    ∃ begun r final, Driven straying (ofJob oneSymbol (.named 0) {}) begun r ∧
      r.phase = .finished ∧ r.finalSnapshot? = some final ∧ r.Reopens Timeline.root ∧
      ¬final.MembersKnown := by
  have hfirst := (Driven.refl : Driven straying (ofJob oneSymbol (.named 0) {}) [] _).step rfl
  generalize hr : ((step straying).apply (ofJob oneSymbol (.named 0) {})).2 = r at hfirst
  have hidle : r.phase = .idle := by subst hr; decide +kernel
  have hlast := hfirst.step hidle
  generalize hr' : ((step straying).apply r).2 = r' at hlast
  have hfinished : r'.phase = .finished := by subst hr' hr; decide +kernel
  have hroot : (r'.timeline.node? Timeline.root).isSome = true := by subst hr' hr; decide +kernel
  have hnotLast : r'.timeline.chronological.getLast? ≠ some Timeline.root := by
    subst hr' hr; decide +kernel
  have hread : (r'.finalSnapshot?.map (·.materialize))
      = some (.error (.invalidData (.unknownMember "marks" "x"))) := by
    subst hr' hr; decide +kernel
  have hinitial : oneSymbol.Coherent := Snapshot.coherent_of_materialize
    (show oneSymbol.toData.materialize = .ok oneSymbol by decide)
  obtain ⟨final, hfinal, hreopens, hall⟩ := finished_reopens hlast hfinished hinitial
    fun b _ => orderly_of_library always_straying r' b
  obtain ⟨n, hn⟩ := Option.isSome_iff_exists.mp hroot
  refine ⟨_, r', final, hlast, hfinished, hfinal,
    hreopens Timeline.root n hn fun hc => absurd hc hnotLast, fun hmembers => ?_⟩
  obtain ⟨-, s, hs⟩ := hall.mpr hmembers
  rw [hfinal, Option.map_some, hs] at hread
  cases hread

/-- The run of the second program alone is finished, and neither its only step nor its final state
can be opened again. -/
theorem finished_not_reopened :
    ∃ r, Reaches straying (ofJob oneSymbol (.named 1) {}) r ∧ r.phase = .finished ∧
      (∃ n, r.timeline.node? Timeline.root = some n) ∧ ¬r.Reopens Timeline.root ∧
      ∃ final, r.finalSnapshot? = some final ∧ ¬∃ s, final.materialize = .ok s := by
  have hreaches := (Reaches.refl : Reaches straying (ofJob oneSymbol (.named 1) {}) _).command
    (Script.demand (.execute 1))
  generalize hr : ((command straying (Script.demand (.execute 1))).apply
    (ofJob oneSymbol (.named 1) {})).2 = r at hreaches
  have hfinished : r.phase = .finished := by subst hr; decide +kernel
  have hroot : (r.timeline.node? Timeline.root).isSome = true := by subst hr; decide +kernel
  have hrecord : r.snapshotAt Timeline.root
      = .error (.invalidData (.unknownMember "marks" "x")) := by subst hr; decide +kernel
  have hread : (r.finalSnapshot?.map (·.materialize))
      = some (.error (.invalidData (.unknownMember "marks" "x"))) := by subst hr; decide +kernel
  obtain ⟨final, hfinal, herror⟩ := Option.map_eq_some_iff.mp hread
  refine ⟨r, hreaches, hfinished, Option.isSome_iff_exists.mp hroot, ?_, final, hfinal, ?_⟩
  · rintro ⟨s, hs, -⟩
    rw [hrecord] at hs
    cases hs
  · rintro ⟨s, hs⟩
    rw [herror] at hs
    cases hs

end Run

end Chronicle
