import Chronicle.Proofs.Timeline.Growth
import Chronicle.Proofs.Run.Browsing
import Chronicle.Proofs.Run.Widening
/-!
Steps that are repeated.

A step that asks to be repeated, however often, gets one new sibling for that when it is done: a fresh
node with the same program right behind its own (`Repeated`).  There it stays, whatever else is
scheduled or repeated later (`RepeatsNext`), and so it is made right after all that is below the
original (`RepeatsLast`).  Everything else that is new is below the step that scheduled it, so the
nodes of a run can be counted by what its programs were granted (`repeats_are_siblings`).
-/

namespace Chronicle

namespace Run

variable {P : Type} {library : Library P} {r r' r₀ m : Run P} {c copy : NodeId}
  {initial : Snapshot} {root : Job P} {config : RunConfig} {begun begun₀ : List (Run P)}
  {done : List NodeId} {job : Job P} {rest jobs : List (Job P)} {state state' : SnapshotState}
  {s : Snapshot} {w : Work P} {data : SnapshotData}

/-! ### What a repetition is -/

/-- The step that was made from `r` to `r'` has put new nodes below its own, and no others but
`copy`. -/
def PutsBelow (r r' : Run P) (copy : Option NodeId) : Prop :=
  ∀ id n, r.timeline.node? id = none → r'.timeline.node? id = some n → copy ≠ some id →
    n.parent = some r.current

/-- The step that was made from `r` to `r'` has got the sibling `copy`. -/
structure Repeated (r r' : Run P) (copy : NodeId) : Prop where
  notRoot : r.current ≠ Timeline.root
  fresh : r.timeline.node? copy = none
  others : PutsBelow r r' (some copy)
  behind : r'.timeline.next? r.current = some copy
  inFront : r'.timeline.next? copy = r.timeline.next? r.current
  /-- It is a node like a new one, with the program of the step and its parent. -/
  node : ∃ n n', r'.timeline.node? r.current = some n ∧ r'.timeline.node? copy = some n' ∧
    n'.parent = n.parent ∧ n'.program = n.program ∧ n'.name = "" ∧ n'.hook = none ∧
    n'.repeats = false ∧ n'.status = .scheduled
  noRecord : r'.recordAt copy = .ok none

/-- Among the children of their parent, `copy` comes right after `c`. -/
def RepeatsNext (c copy : NodeId) (r : Run P) : Prop :=
  ∃ parent front later, r.timeline.parent? c = some parent ∧
    r.timeline.parent? copy = some parent ∧
    r.timeline.children parent = front ++ c :: copy :: later

/-- After the step of `c` those below it were made, at any depth, and then that of `copy`. -/
def RepeatsLast (c copy : NodeId) (begun : List (Run P)) (r : Run P) : Prop :=
  ∃ front below later, begun.map (·.current) = front ++ c :: (below ++ copy :: later) ∧
    ∀ id, id ∈ below ↔ c ∈ r.timeline.ancestors id

/-! ### A step that is repeated -/

/-- A node that waits is like a new one, but for its state. -/
theorem Stands.waits (h : r.Stands done jobs state) {id : NodeId} (hid : id.index < r.timeline.size)
    (hdone : id ∉ done) :
    ∃ n, r.timeline.node? id = some n ∧ n.name = "" ∧ n.hook = none ∧ n.repeats = false ∧
      n.status = .scheduled := by
  obtain ⟨f, ids, hshape, horder, hfront⟩ := h.layout
  have hids : id ∈ ids := by
    have hmem := (hshape.complete id).mpr hid
    rw [horder] at hmem
    exact (List.mem_append.mp hmem).resolve_left hdone
  obtain ⟨job, state', hawaits⟩ : ∃ job state', r.timeline.Awaits id job state' := by
    cases hfront with
    | last final => cases hids
    | next final current queue =>
        rcases List.mem_cons.mp hids with rfl | hids
        · exact ⟨_, _, current⟩
        · obtain ⟨job, hawaits⟩ := Timeline.Queue.awaits queue hids
          exact ⟨job, _, hawaits⟩
  obtain ⟨n, hn, hcore⟩ := Option.map_eq_some_iff.mp hawaits.1
  exact ⟨n, hn, congrArg Node.name hcore, congrArg Node.hook hcore, congrArg Node.repeats hcore,
    congrArg Node.status hcore⟩

/-- The first of all steps is the root's, and it cannot be repeated. -/
theorem Passes.ne_root (hp : Passes library r done job rest state s w data state')
    (h : r.Stands done (job :: rest) state) (hrepeats : w.repeats = true) :
    r.current ≠ Timeline.root := by
  cases done with
  | nil =>
      have hcloses := hp.closes
      rw [Work.closes, if_pos ⟨hrepeats, rfl⟩] at hcloses
      cases hcloses
  | cons first done =>
      obtain ⟨f, ids, hshape, horder, -⟩ := h.layout
      obtain ⟨later, hroot⟩ := List.head?_eq_some_iff.mp hshape.head?_order
      rw [horder] at hroot
      obtain rfl : first = Timeline.root := (List.cons.inj hroot).1
      exact fun hc => h.current_notMem (hc ▸ List.mem_cons_self)

theorem PutsBelow.of_widened {behind : Option NodeId}
    (h : r.timeline.Widened r.current behind r'.timeline) : PutsBelow r r' behind := by
  intro id n hnew hn hne
  have hlt := Timeline.node?_isSome.mp (Option.isSome_of_eq_some hn)
  have hparent := h.below id (Timeline.node?_eq_none.mp hnew) hlt hne
  rwa [Timeline.parent?, hn] at hparent

/-- **A step that asked to be repeated is repeated.** -/
theorem Driven.repeated (h : Driven library (ofJob initial root config) begun r)
    (idle : r.phase = .idle) {more : Bool} (made : (Run.step library).apply r = (.ok more, r'))
    (hasked : 0 < (stepTally library r).repeats) : ∃ copy, Repeated r r' copy := by
  obtain ⟨behind, hsome, hwidened⟩ := (h.widened_step idle).2 more r' made
  obtain ⟨copy, rfl⟩ := Option.isSome_iff_exists.mp (hsome.trans (decide_eq_true hasked))
  obtain ⟨hfresh, hlt, hparent, hnext, hprogram⟩ := hwidened.copied copy rfl
  obtain ⟨done, job, rest, state, hbetween⟩ := h.exists_between idle
  obtain ⟨s, w, data, state', hp⟩ := hbetween.exists_passes made
  obtain ⟨r₁, hstep, hrows, -⟩ := hbetween.advance hp
  obtain ⟨-, rfl⟩ := Prod.mk.inj (made.symm.trans hstep)
  have hrepeats : w.repeats = true := by
    rw [hp.work, (hbetween.stands.agrees hp.opens library).repeats, decide_eq_true hasked]
  -- The nodes whose steps were made were there before.
  have hdone : copy ∉ done ++ [r.current] := fun hc =>
    absurd (hbetween.stands.lt_size copy hc) (Nat.not_lt.mpr hfresh)
  obtain ⟨n', hn', hname, hhook, hagain, hstatus⟩ := hrows.stands.waits hlt hdone
  obtain ⟨n, hn⟩ : ∃ n, r'.timeline.node? r.current = some n := Option.isSome_iff_exists.mp
    (Timeline.node?_isSome.mpr (Nat.lt_of_lt_of_le hwidened.lt_size hwidened.size_le))
  rw [← hwidened.parent r.current hwidened.lt_size, Timeline.parent?, Timeline.parent?, hn, hn',
    Option.bind_some, Option.bind_some] at hparent
  rw [Timeline.program?, Timeline.program?, hn, hn', Option.map_some, Option.map_some,
    Option.some.injEq] at hprogram
  refine ⟨copy, hp.ne_root hbetween.stands hrepeats, Timeline.node?_eq_none.mpr hfresh,
    .of_widened hwidened, hwidened.self, hnext,
    ⟨n, n', hn, hn', hparent, hprogram, hname, hhook, hagain, hstatus⟩, ?_⟩
  rw [recordAt, Timeline.node_eq_ok.mpr hn']
  simp [bind, Except.bind, pure, Except.pure, hstatus]

/-! ### At every later moment -/

/-- A moment of a run that is driven on is one of the whole run. -/
theorem Driven.moment (h₀ : Driven library (ofJob initial root config) begun₀ r₀)
    (h : Moment library r₀ m) : Moment library (ofJob initial root config) m := by
  cases h with
  | between h => exact .between (h₀.trans h)
  | program h idle opens node meets => exact .program (h₀.trans h) idle opens node meets
  | hook h idle opens performs closes hooks begins meets =>
      exact .hook (h₀.trans h) idle opens performs closes hooks begins meets

/-- **The copy stays where it was put, and is made as soon as the original is over.** -/
theorem Repeated.moment (hrepeated : Repeated r r' copy)
    (h : Driven library (ofJob initial root config) (begun ++ [r]) r')
    (hm : Moment library r' m) :
    RepeatsNext r.current copy m ∧
      (m.phase = .finished → ∀ steps, Driven library (ofJob initial root config) steps m →
        RepeatsLast r.current copy steps m) := by
  have hmoment := h.moment hm
  have hsettled := Moment.settled h hm
  obtain ⟨n, n', hn, hn', hparent, -⟩ := hrepeated.node
  obtain ⟨_, _, hlabelled⟩ := hmoment.marked.1
  obtain ⟨f, hshape⟩ := hlabelled.exists_shape
  have hnext : m.timeline.next? r.current = some copy := by
    rw [hsettled.next r.current (by simp), hrepeated.behind]
  have hparent? : ∀ {id n}, r'.timeline.node? id = some n → m.timeline.parent? id = n.parent := by
    intro id n hn
    rw [hsettled.parent id (Timeline.node?_isSome.mp (Option.isSome_of_eq_some hn)),
      Timeline.parent?, hn, Option.bind_some]
  refine ⟨?_, fun hfinished steps hsteps => ?_⟩
  · obtain ⟨n₁, hn₁, -⟩ := Option.bind_eq_some_iff.mp hnext
    obtain ⟨parent, hsome⟩ := hshape.exists_parent hn₁ hrepeated.notRoot
    have hself : n.parent = some parent := by
      rw [← hparent? hn, Timeline.parent?, hn₁, Option.bind_some, hsome]
    have hmine := (hparent? hn).trans hself
    obtain ⟨front, later, hchildren⟩ := hshape.children_next hmine hnext
    exact ⟨parent, front, later, hmine, (hparent? hn').trans (hparent.trans hself), hchildren⟩
  · obtain ⟨horder, -⟩ := hsteps.order_of_finished hfinished
    obtain ⟨front, below, later, hchronological, hbelow⟩ := hshape.chronological_next hnext
    exact ⟨front, below, later, horder.trans hchronological, hbelow⟩

/-- **Repetitions are siblings, one for each step that asked.**

A step that succeeds and has asked to be repeated, once or often, is not the root's.  It gets one new
sibling, a fresh node with the same program, and the other nodes that it adds are its own children.  At
every later moment the sibling comes right after it among the children of their parent, and in a
finished run it was made after all the steps below the original and before any other.  A step that did
not ask adds only children, and what comes after it stays what it was.

So between two steps and in the end there are as many nodes as steps that were scheduled and steps that
were done and had asked, besides the root; and along every run these can be counted. -/
theorem repeats_are_siblings (library : Library P) (initial : Snapshot) (root : Job P)
    (config : RunConfig) :
    (∀ r, Reaches library (ofJob initial root config) r →
      ∃ schedules repeats, Tallied library (ofJob initial root config) schedules repeats r) ∧
    ∀ schedules repeats r, Tallied library (ofJob initial root config) schedules repeats r →
      (r.phase = .idle → ∀ result r', (step library).apply r = (result, r') →
        (0 < (stepTally library r).repeats → ∀ more, result = .ok more →
          ∃ copy, Repeated r r' copy ∧ ∀ m, Moment library r' m →
            RepeatsNext r.current copy m ∧
            (m.phase = .finished → ∀ steps, Driven library (ofJob initial root config) steps m →
              RepeatsLast r.current copy steps m)) ∧
        ((stepTally library r).repeats = 0 → PutsBelow r r' none ∧
          ∀ m, Moment library r' m → m.timeline.next? r.current = r.timeline.next? r.current)) ∧
      (r.phase = .idle ∨ r.phase = .finished → r.timeline.size = 1 + schedules + repeats) := by
  refine ⟨fun r h => ?_, fun schedules repeats r h => ⟨fun idle result r' hstep => ?_,
    h.size_eq⟩⟩
  · obtain ⟨begun, hdriven⟩ := h.driven
    exact hdriven.exists_tallied
  · obtain ⟨begun, hdriven⟩ := h.driven
    have hnext := hdriven.step idle
    rw [hstep] at hnext
    refine ⟨?_, fun hnone => ?_⟩
    · rintro hasked more rfl
      obtain ⟨copy, hrepeated⟩ := hdriven.repeated idle hstep hasked
      exact ⟨copy, hrepeated, fun m hm => hrepeated.moment hnext hm⟩
    · obtain ⟨behind, hbehind, hwidened⟩ := (hdriven.widened_step idle).1
      rw [hstep] at hwidened
      obtain rfl : behind = none := by
        cases behind with
        | none => rfl
        | some copy => simp [hnone] at hbehind
      refine ⟨.of_widened hwidened, fun m hm => ?_⟩
      rw [(Moment.settled hnext hm).next r.current (by simp), hwidened.self, Option.none_or]

/-- The run in which a copy is put between two siblings: the step of `⟨1⟩` asks, and is repeated as `⟨3⟩`
before that of `⟨2⟩` is made. -/
theorem repeats_are_siblings_repeating :
    ∃ r r' m, Tallied repeating (ofJob oneSymbol (.named 0) {}) 2 0 r ∧
      r.current = ⟨1⟩ ∧ r.timeline.size = 1 + 2 + 0 ∧
      (step repeating).apply r = (.ok true, r') ∧ Repeated r r' ⟨3⟩ ∧
      Moment repeating r' m ∧ m.phase = .finished ∧ RepeatsNext ⟨1⟩ ⟨3⟩ m ∧
      m.timeline.chronological = [⟨0⟩, ⟨1⟩, ⟨3⟩, ⟨2⟩] := by
  have hstart : (step repeating).apply (ofJob oneSymbol (.named 0) {})
      = (.ok true, ((step repeating).apply (ofJob oneSymbol (.named 0) {})).2) :=
    Prod.ext (by decide +kernel) rfl
  have htallied := (Tallied.start : Tallied repeating (ofJob oneSymbol (.named 0) {}) _ _ _).step
    rfl hstart
  have hcount : stepTally repeating (ofJob oneSymbol (.named 0) {}) = ⟨2, 0⟩ := by decide +kernel
  rw [hcount] at htallied
  generalize hr : ((step repeating).apply (ofJob oneSymbol (.named 0) {})).2 = r at htallied
  have hidle : r.phase = .idle := by subst hr; decide +kernel
  have hcurrent : r.current = ⟨1⟩ := by subst hr; decide +kernel
  have hasked : 0 < (stepTally repeating r).repeats := by subst hr; decide +kernel
  have hmade : (step repeating).apply r = (.ok true, ((step repeating).apply r).2) :=
    Prod.ext (by subst hr; decide +kernel) rfl
  generalize hr' : ((step repeating).apply r).2 = r' at hmade
  have hbehind : r'.timeline.next? ⟨1⟩ = some ⟨3⟩ := by subst hr' hr; decide +kernel
  have hidle' : r'.phase = .idle := by subst hr' hr; decide +kernel
  -- Two more steps, those of the copy and of the sibling behind it, end the run.
  have hdriven := (Driven.refl : Driven repeating r' _ _).step hidle'
  have hcopy : ((step repeating).apply r').2.phase = .idle := by subst hr' hr; decide +kernel
  have hlast := hdriven.step hcopy
  generalize hm : ((step repeating).apply ((step repeating).apply r').2).2 = m at hlast
  have hfinished : m.phase = .finished := by subst hm hr' hr; decide +kernel
  have horder : m.timeline.chronological = [⟨0⟩, ⟨1⟩, ⟨3⟩, ⟨2⟩] := by
    subst hm hr' hr; decide +kernel
  have hsiblings := (repeats_are_siblings repeating oneSymbol (.named 0) {}).2 2 0 r htallied
  obtain ⟨copy, hrepeated, hlater⟩ := (hsiblings.1 hidle _ r' hmade).1 hasked true rfl
  obtain rfl : copy = ⟨3⟩ := by
    have hnext := hrepeated.behind
    rw [hcurrent, hbehind] at hnext
    exact (Option.some.inj hnext).symm
  exact ⟨r, r', m, htallied, hcurrent, hsiblings.2 (.inl hidle), hmade, hrepeated, .between hlast,
    hfinished, hcurrent ▸ (hlater m (.between hlast)).1, horder⟩

end Run

end Chronicle
