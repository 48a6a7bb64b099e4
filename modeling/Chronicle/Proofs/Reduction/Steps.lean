import Chronicle.Procedure.Basic
import Chronicle.Proofs.Reduction.Names
import Chronicle.Proofs.Reduction.Rounds
import Chronicle.Proofs.Run.Plan
/-!
The steps of the reduction, one by one.

For each step it is said what its program makes of the state (`Job.Makes`), and from that what the
next step finds (`Takes`).  A step that builds a set repeats itself as long as the set grows.  So it is made
as often as there are rounds before the first that adds nothing, and each of them is recorded with
what was known after it (`Phase.Grows.exists_log`).
-/

namespace Chronicle

namespace Outline

variable {o : Outline} {known : Set String}

/-! ### What the two sets grow to -/

theorem generatingOver_generating (h : ∀ x ∈ known, o.Generating x) :
    ∀ x ∈ o.generatingOver known, o.Generating x := by
  intro x hx
  obtain ⟨key, hkey, rfl, hright⟩ := hx
  exact .rule hkey fun s hs hn => h s (hright s hs hn)

theorem reachableOver_reachable (h : ∀ x ∈ known, x ∈ o.Reachable) :
    ∀ x ∈ o.reachableOver known, x ∈ o.Reachable := by
  intro x hx
  obtain ⟨key, hkey, hleft, hright, hn⟩ := hx
  exact .rule hkey (h key.left hleft) hright hn

/-- A set that no round adds to holds all generating nonterminals. -/
theorem Generating.mem_of_closed {x : String} (h : o.Generating x)
    (hclosed : o.generatingOver known ⊆ known) : x ∈ known := by
  induction h with
  | rule hkey _ ih => exact hclosed ⟨_, hkey, rfl, ih⟩

theorem ReachableBy.mem_of_closed {x : String} (h : o.ReachableBy o.rules x)
    (hstart : o.start ∈ known) (hclosed : o.reachableOver known ⊆ known) : x ∈ known := by
  induction h with
  | start => exact hstart
  | rule hkey _ hright hn ih => exact hclosed ⟨_, hkey, ih, hright, hn⟩

end Outline

namespace Grammar

/-- A grammar has finitely many nonterminals. -/
theorem finite_nonterminals (g : Grammar) : g.outline.nonterminals.Finite := by
  refine (List.finite_toSet (g.nonterminalList.map (·.name))).subset fun x hx => ?_
  exact mem_nonterminalList_map.mpr hx

end Grammar

namespace Reduction

variable {s s₁ : Snapshot} {o : Outline} {doomed : Set GrammarEntry} {known : Set String}
  {view : Option (String × Set String)} {made : Nat} {rest : List (Job Procedure.Step)}

/-- The job of a step. -/
def job (step : Step) : Job Procedure.Step := .named (.reduction step)

/-! ### What the programs make of their steps -/

theorem makes_opening (s : Snapshot) :
    (Job.opening (.reduction .main)).Makes Procedure.library s
      (.initialState ::
        [.removeSelfLoops, .removeNongenerating, .removeUnreachable, .cleanUp].map job) false s :=
  fun _ => ⟨_, .schedule_bind (.bind (.setName _ _) (.bind (.schedule _ _) (.bind (.schedule _ _)
    (.bind (.schedule _ _) (.schedule _ _)))))⟩

theorem makes_initialState (s : Snapshot) :
    Job.initialState.Makes Procedure.library s [] false s :=
  fun _ => ⟨_, .setName _ _⟩

theorem makes_removeNongenerating (s : Snapshot) :
    (job .removeNongenerating).Makes Procedure.library s
      ([.initGenerating, .growGenerating, .removeOutsideGenerating].map job) false s :=
  fun _ => ⟨_, .bind (.setName _ _) (.bind (.schedule _ _) (.bind (.schedule _ _) (.schedule _ _)))⟩

theorem makes_removeUnreachable (h : (wipe generatingId).apply s = (.ok (), s₁)) :
    (job .removeUnreachable).Makes Procedure.library s
      ([.initReachable, .growReachable, .removeOutsideReachable].map job) false s₁ :=
  fun _ => ⟨_, .bind (.setName _ _) (.bind (.editSnapshot h)
    (.bind (.schedule _ _) (.bind (.schedule _ _) (.schedule _ _))))⟩

/-- A step that only edits the state. -/
theorem makes_edit {step : Step} {name : String} {edit : Edit Snapshot Unit}
    (hprogram : Procedure.library (.reduction step) = show Script Procedure.Step Unit from do
      Script.setName name
      Script.editSnapshot edit)
    (h : edit.apply s = (.ok (), s₁)) : (job step).Makes Procedure.library s [] false s₁ := by
  intro label
  refine ⟨name, ?_⟩
  show (Procedure.library (.reduction step)).Does _ _ _
  rw [hprogram]
  exact .bind (.setName _ _) (.editSnapshot h)

/-- A step that builds a set is repeated if the set has grown. -/
theorem makes_grow {step : Step} {name : String} {edit : Edit Snapshot Bool} {more : Bool}
    (hprogram : Procedure.library (.reduction step) = show Script Procedure.Step Unit from do
      Script.setName name
      if ← Script.editSnapshot edit then Script.requestRepeat)
    (h : edit.apply s = (.ok more, s₁)) : (job step).Makes Procedure.library s [] more s₁ := by
  intro label
  refine ⟨name, ?_⟩
  show (Procedure.library (.reduction step)).Does _ _ _
  rw [hprogram]
  cases more with
  | true => exact .bind (.setName _ _) (.bind (.editSnapshot h) (.requestRepeat _))
  | false => exact .bind (.setName _ _) (.bind (.editSnapshot h) (.pure () _))

/-! ### What the next step finds -/

/-- The next step of the plan, after a program that proposed the removal of `doomed`, and the record
of the one before it. -/
theorem exists_writes {step : Job Procedure.Step} {kids : List (Job Procedure.Step)} {again : Bool}
    (hmakes : step.Makes Procedure.library s kids again s₁)
    (hamid : s₁.Amid o doomed fun b => b.settled.Shows view)
    (hclosed : (o.without doomed).Closed) (hcovers : (o.without doomed).Covers view)
    (hrepeats : again = true → made ≠ 0) (hmore : Plan.following step kids again rest ≠ []) :
    ∃ data s', s₁.archive = .ok data ∧ data.materialize = .ok s' ∧
      Plan.Writes Procedure.library ⟨made, step :: rest, s⟩ ⟨step, s₁.toData⟩
        ⟨made + 1, Plan.following step kids again rest, s'⟩ ∧
      s'.Presents (o.without doomed) view := by
  obtain ⟨data, s', harchive, hmaterialize, hpresents⟩ := hamid.renewed hclosed hcovers
  exact ⟨data, s', harchive, hmaterialize,
    .step hmakes hrepeats harchive hmaterialize hmore, hpresents⟩

/-- The step is the first of the plan, and then the jobs and a snapshot with this outline and this
view are left. -/
def Takes (step : Job Procedure.Step) (s : Snapshot) (made : Nat)
    (rest jobs : List (Job Procedure.Step)) (o : Outline)
    (view : Option (String × Set String)) : Prop :=
  ∃ record s', Plan.Writes Procedure.library ⟨made, step :: rest, s⟩ ⟨step, record⟩
    ⟨made + 1, jobs, s'⟩ ∧ s'.Presents o view

theorem takes_of_makes {step : Job Procedure.Step} {kids : List (Job Procedure.Step)} {again : Bool}
    (hmakes : step.Makes Procedure.library s kids again s₁)
    (hamid : s₁.Amid o doomed fun b => b.settled.Shows view)
    (hclosed : (o.without doomed).Closed) (hcovers : (o.without doomed).Covers view)
    (hrepeats : again = true → made ≠ 0) (hmore : Plan.following step kids again rest ≠ []) :
    Takes step s made rest (Plan.following step kids again rest) (o.without doomed) view := by
  obtain ⟨data, s', -, -, hwrites, hpresents⟩ :=
    exists_writes hmakes hamid hclosed hcovers hrepeats hmore
  exact ⟨_, s', hwrites, hpresents⟩

/-- The same if nothing is to go. -/
theorem takes_of_mark {step : Job Procedure.Step} {kids : List (Job Procedure.Step)} {again : Bool}
    (hmakes : step.Makes Procedure.library s kids again s₁)
    (hamid : s₁.Amid o ∅ fun b => b.settled.Shows view) (hcovers : o.Covers view)
    (hrepeats : again = true → made ≠ 0) (hmore : Plan.following step kids again rest ≠ []) :
    Takes step s made rest (Plan.following step kids again rest) o view := by
  have htakes := takes_of_makes hmakes hamid (by rw [o.without_empty]; exact hamid.closed)
    (by rwa [o.without_empty]) hrepeats hmore
  rwa [o.without_empty] at htakes

/-! ### The single steps -/

section

variable (made : Nat) (rest : List (Job Procedure.Step))

theorem takes_initialState (h : s.Presents o none) (hmore : rest ≠ []) :
    Takes .initialState s made rest rest o none :=
  takes_of_mark (makes_initialState s) (h.amid.imp fun _ => Bag.Shows.settled_none) trivial
    (by simp) hmore

theorem takes_removeSelfLoops (h : s.Presents o none) (hmore : rest ≠ []) :
    Takes (job .removeSelfLoops) s made rest rest o.dropLoops none := by
  obtain ⟨_, s₁, happly, hamid⟩ := dropSelfLoops_yields h.amid
  rw [← o.without_loopEntries]
  refine takes_of_makes (makes_edit rfl happly) (hamid.imp fun _ => Bag.Shows.settled_none) ?_
    trivial (by simp) hmore
  rw [o.without_loopEntries]
  exact h.amid.closed.dropLoops

theorem takes_removeNongenerating (h : s.Presents o none) :
    Takes (job .removeNongenerating) s made rest
      (job .initGenerating :: job .growGenerating :: job .removeOutsideGenerating :: rest) o none :=
  takes_of_mark (makes_removeNongenerating s) (h.amid.imp fun _ => Bag.Shows.settled_none)
    trivial (by simp) (by simp [Plan.following])

theorem takes_removeOutsideGenerating (h : s.Presents o (some (generatingId, known)))
    (hknown : known ⊆ o.nonterminals) (hmore : rest ≠ []) :
    Takes (job .removeOutsideGenerating) s made rest rest (o.within (insert o.start known))
      (some (generatingId, known)) := by
  obtain ⟨_, s₁, happly, hamid⟩ := keepGenerating_yields h.amid
  rw [← o.without_outside]
  refine takes_of_makes (makes_edit rfl happly) (hamid.imp fun _ hb => hb.settled) ?_ ?_ (by simp)
    hmore
  · rw [o.without_outside]
    exact h.amid.closed.within (Set.mem_insert _ _)
  · rw [o.without_outside]
    exact fun x hx => ⟨hknown hx, Set.mem_insert_of_mem _ hx⟩

theorem takes_removeUnreachable (h : s.Presents o (some (generatingId, known))) :
    Takes (job .removeUnreachable) s made rest
      (job .initReachable :: job .growReachable :: job .removeOutsideReachable :: rest) o none := by
  obtain ⟨_, s₁, happly, -, hamid⟩ := wipe_yields h.amid
  exact takes_of_mark (makes_removeUnreachable happly)
    (hamid.imp fun _ hb => Bag.Shows.settled_none hb) trivial (by simp) (by simp [Plan.following])

theorem takes_removeOutsideReachable (h : s.Presents o (some (reachableId, known)))
    (hknown : known ⊆ o.nonterminals) (hstart : o.start ∈ known) (hmore : rest ≠ []) :
    Takes (job .removeOutsideReachable) s made rest rest (o.within known)
      (some (reachableId, known)) := by
  obtain ⟨_, s₁, happly, hamid⟩ := keepReachable_yields h.amid
  rw [← o.without_outside]
  refine takes_of_makes (makes_edit rfl happly) (hamid.imp fun _ hb => hb.settled) ?_ ?_ (by simp)
    hmore
  · rw [o.without_outside]
    exact h.amid.closed.within hstart
  · rw [o.without_outside]
    exact fun x hx => ⟨hknown hx, hx⟩

end

/-! ### The steps of the rounds -/

/-- A phase that builds a set, round by round, and then removes what is outside of it. -/
structure Phase where
  /-- The place of the phase among the steps below the root. -/
  place : Nat
  /-- The step above the others. -/
  enter : Step
  /-- The step that opens the set. -/
  first : Step
  /-- The step that is repeated. -/
  grow : Step
  /-- The step that removes what is outside. -/
  leave : Step
  id : String
  /-- The letter in the names of the set. -/
  letter : String
  /-- What the set is opened with. -/
  opening : Outline → Set String
  /-- What a round finds over known members. -/
  adds : Outline → Set String → Set String

def generatingPhase : Phase where
  place := 3
  enter := .removeNongenerating
  first := .initGenerating
  grow := .growGenerating
  leave := .removeOutsideGenerating
  id := generatingId
  letter := "S"
  opening o := o.generatingOver ∅
  adds := Outline.generatingOver

def reachablePhase : Phase where
  place := 4
  enter := .removeUnreachable
  first := .initReachable
  grow := .growReachable
  leave := .removeOutsideReachable
  id := reachableId
  letter := "H"
  opening o := {o.start}
  adds := Outline.reachableOver

/-- A step that only touches the set, and its record. -/
theorem exists_writes_set {step : Job Procedure.Step} {again : Bool} {id name : String}
    {members : Set String} (hmakes : step.Makes Procedure.library s [] again s₁)
    (hamid : s₁.Amid o ∅ (·.HoldsSet id known members)) (hcalls : s₁.Calls id name)
    (hmembers : members ⊆ o.nonterminals) (hrepeats : again = true → made ≠ 0)
    (hmore : Plan.following step [] again rest ≠ []) :
    ∃ record s', Plan.Writes Procedure.library ⟨made, step :: rest, s⟩ ⟨step, record⟩
        ⟨made + 1, Plan.following step [] again rest, s'⟩ ∧
      record.Shows o id name members ∧ s'.Presents o (some (id, members)) ∧ s'.Calls id name := by
  have hclosed : (o.without ∅).Closed := by
    rw [o.without_empty]
    exact hamid.closed
  have hcovers : (o.without ∅).Covers (some (id, members)) := by
    rw [o.without_empty]
    exact hmembers
  have hsettled : s₁.Amid o ∅ fun b => b.settled.Shows (some (id, members)) :=
    hamid.imp fun _ hb => hb.settled
  obtain ⟨data, s', harchive, hmaterialize, hwrites, hpresents⟩ :=
    exists_writes hmakes hsettled hclosed hcovers hrepeats hmore
  rw [o.without_empty] at hpresents
  exact ⟨_, s', hwrites, hamid.shows hcalls, hpresents,
    hcalls.renewed hamid.structures.full harchive hmaterialize⟩

namespace Phase

variable {φ : Phase} {k : Nat}

/-- What the set holds after so many rounds. -/
def members (φ : Phase) (o : Outline) : Nat → Set String := Outline.after (φ.adds o) (φ.opening o)

/-- The first round that finds nothing new. -/
def IsLast (φ : Phase) (o : Outline) (k : Nat) : Prop :=
  IsLeast {j | 0 < j ∧ φ.members o j = φ.members o (j - 1)} k

/-- What the step of a round leaves: the set, with the name of the round and what is known then. -/
def Shown (φ : Phase) (o : Outline) (j : Nat) (e : Plan.Entry Procedure.Step) : Prop :=
  e.job = job (if j = 0 then φ.first else φ.grow) ∧
    e.record.Shows o φ.id (roundName φ.letter j) (φ.members o j)

/-- The first step opens the set. -/
def Opens (φ : Phase) : Prop :=
  ∀ (s : Snapshot) (o : Outline), s.Presents o none →
    ∃ s₁, (job φ.first).Makes Procedure.library s [] false s₁ ∧
      s₁.Amid o ∅ (·.HoldsSet φ.id ∅ (φ.opening o)) ∧ s₁.Calls φ.id (roundName φ.letter 0)

/-- The step that is repeated adds to the set what one round finds, counts the round in its name,
and is to be repeated if any of what it has found is new. -/
def Grows (φ : Phase) : Prop :=
  ∀ (s : Snapshot) (o : Outline) (known : Set String) (rounds : Nat),
    s.Presents o (some (φ.id, known)) → s.Calls φ.id (roundName φ.letter rounds) →
    ∃ more s₁, (job φ.grow).Makes Procedure.library s [] more s₁ ∧
      (more = true ↔ ¬ φ.adds o known ⊆ known) ∧
      s₁.Amid o ∅ (·.HoldsSet φ.id known (known ∪ φ.adds o known)) ∧
      s₁.Calls φ.id (roundName φ.letter (rounds + 1))

/-- **A step that is repeated as long as the set grows is made up to the first round that finds
nothing new**, and each round has its record. -/
theorem Grows.exists_log (hgrows : φ.Grows) (hbound : ∀ n, φ.members o n ⊆ o.nonterminals)
    (hlast : φ.IsLast o k) {n : Nat} (hn : n < k)
    (h : s.Presents o (some (φ.id, φ.members o n))) (hcalls : s.Calls φ.id (roundName φ.letter n))
    (hmade : made ≠ 0) (hmore : rest ≠ []) :
    ∃ made' s' log, Plan.Log Procedure.library ⟨made, job φ.grow :: rest, s⟩ log
        ⟨made', rest, s'⟩ ∧ s'.Presents o (some (φ.id, φ.members o k)) ∧
      List.Forall₂ (φ.Shown o) (List.range' (n + 1) (k - n)) log := by
  -- The induction is on the number of rounds that are left.
  induction hleft : k - n generalizing n s made with
  | zero => omega
  | succ left ih =>
      obtain ⟨more, s₁, hmakes, hrepeats, hamid, hcalls₁⟩ := hgrows s o _ n h hcalls
      rw [members, Outline.adds_subset_after_iff hlast hn] at hrepeats
      have hnext : φ.members o n ∪ φ.adds o (φ.members o n) = φ.members o (n + 1) := rfl
      rw [hnext] at hamid
      cases more with
      | false =>
          obtain rfl : n + 1 = k := by simpa using hrepeats
          obtain ⟨record, s', hwrites, hshows, hpresents, -⟩ := exists_writes_set hmakes hamid
            hcalls₁ (hbound _) (by simp) hmore
          obtain rfl : left = 0 := by omega
          exact ⟨_, s', [⟨_, record⟩], .cons hwrites (.nil _), hpresents,
            .cons ⟨rfl, hshows⟩ .nil⟩
      | true =>
          have hfurther : n + 1 < k := by
            have hne : n + 1 ≠ k := hrepeats.mp rfl
            omega
          obtain ⟨record, s', hwrites, hshows, hpresents, hcalls'⟩ := exists_writes_set hmakes hamid
            hcalls₁ (hbound _) (fun _ => hmade) (by simp [Plan.following])
          obtain ⟨made', s'', log, hlog, hpresents', hall⟩ :=
            ih hfurther hpresents hcalls' (Nat.succ_ne_zero made) (by omega)
          exact ⟨made', s'', ⟨_, record⟩ :: log, .cons hwrites hlog, hpresents',
            .cons ⟨rfl, hshows⟩ hall⟩

/-- **The rounds of a phase**, from the step that opens the set to the last one that looks for
members.  They come to the bound, if no round leads out of it and what no round adds to holds all
of it. -/
theorem exists_log (hopens : φ.Opens) (hgrows : φ.Grows) (bound : Set String)
    (hbound : bound ⊆ o.nonterminals) (hopening : φ.opening o ⊆ bound)
    (hadds : ∀ known, known ⊆ bound → φ.adds o known ⊆ bound)
    (hclosed : ∀ known, φ.opening o ⊆ known → φ.adds o known ⊆ known → bound ⊆ known)
    (h : s.Presents o none) (hmore : rest ≠ []) :
    ∃ k made' s' log, φ.IsLast o k ∧
      Plan.Log Procedure.library ⟨made, job φ.first :: job φ.grow :: rest, s⟩ log
        ⟨made', rest, s'⟩ ∧
      s'.Presents o (some (φ.id, bound)) ∧ List.Forall₂ (φ.Shown o) (List.range (k + 1)) log := by
  have hsub : ∀ n, φ.members o n ⊆ bound := Outline.after_subset hopening hadds
  have hfinite : bound.Finite := (h.outline ▸ s.grammar.finite_nonterminals).subset hbound
  obtain ⟨k, hlast⟩ := Outline.exists_isLeast_after_eq hfinite hsub
  have hmembers : φ.members o k = bound := Set.Subset.antisymm (hsub k)
    (hclosed _ (Outline.after_subset_of_le _ _ (Nat.zero_le k))
      (Outline.adds_subset_after_last hlast))
  obtain ⟨s₁, hmakes, hamid, hcalls⟩ := hopens s o h
  obtain ⟨record, s', hwrites, hshows, hpresents, hcalls'⟩ := exists_writes_set hmakes
    hamid hcalls (hopening.trans hbound) (by simp) (List.cons_ne_nil (job φ.grow) rest)
  obtain ⟨made', s'', log, hlog, hpresents', hall⟩ :=
    hgrows.exists_log (fun n => (hsub n).trans hbound) hlast hlast.1.1 hpresents hcalls'
      (Nat.succ_ne_zero made) hmore
  refine ⟨k, made', s'', ⟨_, record⟩ :: log, hlast, .cons hwrites hlog, hmembers ▸ hpresents', ?_⟩
  rw [List.range_eq_range']
  exact .cons ⟨rfl, hshows⟩ hall

end Phase

theorem opens_generatingPhase : generatingPhase.Opens := by
  intro s o h
  obtain ⟨_, s₁, happly, hamid⟩ := openGenerating_yields h.amid
  exact ⟨s₁, makes_edit rfl happly, hamid,
    openGenerating_calls.of_apply ⟨h.intact.sound, h.structures⟩ happly⟩

theorem opens_reachablePhase : reachablePhase.Opens := by
  intro s o h
  obtain ⟨_, s₁, happly, hamid⟩ := openReachable_yields h.amid
  exact ⟨s₁, makes_edit rfl happly, hamid,
    openReachable_calls.of_apply ⟨h.intact.sound, h.structures⟩ happly⟩

theorem grows_generatingPhase : generatingPhase.Grows := by
  intro s o known rounds h hcalls
  obtain ⟨more, s₁, happly, hmore, hamid⟩ := extendGenerating_yields h.amid
  refine ⟨more, s₁, makes_grow rfl happly, hmore, hamid, ?_⟩
  rw [← nextRoundName_roundName]
  exact extendGenerating_calls.of_apply hcalls happly

theorem grows_reachablePhase : reachablePhase.Grows := by
  intro s o known rounds h hcalls
  obtain ⟨more, s₁, happly, hmore, hamid⟩ := extendReachable_yields h.amid
  refine ⟨more, s₁, makes_grow rfl happly, hmore, hamid, ?_⟩
  rw [← nextRoundName_roundName]
  exact extendReachable_calls.of_apply hcalls happly

end Reduction

end Chronicle
