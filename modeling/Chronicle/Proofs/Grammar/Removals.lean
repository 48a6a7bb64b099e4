import Chronicle.Proofs.Grammar.Finalizing
/-!
Removals in any order.

No removal takes an entry away before the proposals are made true.  So which entry a call hits, and
whether it hits one at all, does not depend on the calls before it (`RemovalCall.target?`), and the
first offer of the tag `removed` settles what the entry carries from then on.  What a list of calls
makes of a grammar is therefore told by the entries that they hit, whatever their order and
however often they are hit (`Withdrawn`).
-/

namespace Chronicle

/-- To offer a removal twice is to offer it once. -/
theorem Tag.resolve_resolve_removed (tag : Tag) :
    (tag.resolve .removed).resolve .removed = tag.resolve .removed := by
  cases tag <;> rfl

/-- A call that asks for a removal. -/
inductive RemovalCall
  | symbol (name : String)
  | rule (key : RuleKey)
deriving DecidableEq

namespace RemovalCall

/-- The edit that the call is. -/
def edit : RemovalCall → Edit Grammar Unit
  | symbol name => Grammar.removeSymbol name
  | rule key => Grammar.removeRule key

/-- What the call may hit; a nonterminal comes before a terminal of the same name. -/
def entries : RemovalCall → List GrammarEntry
  | symbol name => [.nonterminal name, .terminal name]
  | rule key => [.rule key]

/-- The entry that the call hits. -/
def target? (call : RemovalCall) (g : Grammar) : Option GrammarEntry :=
  call.entries.find? fun e => (g.tag? e).isSome

/-- The error of a call that hits nothing. -/
def unknown : RemovalCall → EngineError
  | symbol name => .unknownSymbol name
  | rule key => .unknownRule key

/-- What the call answers. -/
def answer (call : RemovalCall) (g : Grammar) : Except EngineError Unit :=
  if (call.target? g).isSome then .ok () else .error call.unknown

end RemovalCall

namespace Grammar

variable {g g' : Grammar} {e : GrammarEntry} {tag : Tag} {gone : GrammarEntry → Prop}

/-! ### One call -/

/-- What is hit is there. -/
theorem exists_tag_of_target? {call : RemovalCall} (h : call.target? g = some e) :
    ∃ tag, g.tag? e = some tag :=
  Option.isSome_iff_exists.mp (List.find?_some (p := fun e => (g.tag? e).isSome) h)

/-- What a call hits is offered the tag `removed`. -/
theorem apply_of_target? {call : RemovalCall} (h : call.target? g = some e)
    (htag : g.tag? e = some tag) :
    call.edit.apply g = (.ok (), g.put e (tag.resolve .removed)) := by
  have hmem : e ∈ call.entries := List.mem_of_find?_eq_some h
  cases call with
  | rule key =>
      obtain rfl := List.mem_singleton.mp hmem
      exact removeRule_of_tag htag
  | symbol name =>
      cases hn : g.tag? (.nonterminal name) with
      | some present =>
          rw [RemovalCall.target?, RemovalCall.entries, List.find?_cons_of_pos (by simp [hn])] at h
          obtain rfl := Option.some.inj h
          exact apply_discard_markSymbol_nonterminal htag .removed
      | none =>
          rcases List.mem_cons.mp hmem with rfl | hmem
          · simp [hn] at htag
          · obtain rfl := List.mem_singleton.mp hmem
            exact apply_discard_markSymbol_terminal hn htag .removed

/-- A call that hits nothing fails and changes nothing. -/
theorem apply_of_target?_eq_none {call : RemovalCall} (h : call.target? g = none) :
    call.edit.apply g = (.error call.unknown, g) := by
  have hnone : ∀ e ∈ call.entries, g.tag? e = none := by
    intro e he
    simpa using List.find?_eq_none.mp h e he
  cases call with
  | rule key => exact removeRule_of_unknown (hnone _ (by simp [RemovalCall.entries]))
  | symbol name =>
      exact removeSymbol_of_unknown (hnone _ (by simp [RemovalCall.entries]))
        (hnone _ (by simp [RemovalCall.entries]))

theorem apply_removalCall_fst (call : RemovalCall) (g : Grammar) :
    (call.edit.apply g).1 = call.answer g := by
  rw [RemovalCall.answer]
  cases h : call.target? g with
  | none => rw [apply_of_target?_eq_none h]; rfl
  | some e =>
      obtain ⟨tag, htag⟩ := exists_tag_of_target? h
      rw [apply_of_target? h htag]
      rfl

/-- A tag for an entry that is there opens no group of rules. -/
theorem contains_rules_put (h : g.tag? e = some tag) (tag' : Tag) (left : String) :
    (g.put e tag').rules.contains left = g.rules.contains left := by
  cases e with
  | nonterminal name => rfl
  | terminal name => rfl
  | rule key =>
      obtain ⟨group, hgroup, -⟩ := ruleTag?_eq_some.mp h
      show (SortedMap.insert _ _ _).contains left = _
      rw [SortedMap.contains_insert]
      by_cases hleft : left = key.left
      · subst hleft
        simp [SortedMap.contains, hgroup]
      · simp [hleft]

/-! ### Several calls -/

/-- The grammar after the entries in `gone` were offered the tag `removed`, and nothing else was
done. -/
structure Withdrawn (g : Grammar) (gone : GrammarEntry → Prop) (g' : Grammar) : Prop where
  start : g'.start = g.start
  lefts : ∀ left, g'.rules.contains left = g.rules.contains left
  hit : ∀ e, gone e → g'.tag? e = (g.tag? e).map (·.resolve .removed)
  spared : ∀ e, ¬gone e → g'.tag? e = g.tag? e

namespace Withdrawn

theorem refl (g : Grammar) : Withdrawn g (fun _ => False) g :=
  ⟨rfl, fun _ => rfl, fun _ h => h.elim, fun _ _ => rfl⟩

/-- The entries that were hit determine the grammar. -/
theorem unique {g₁ g₂ : Grammar} (h₁ : Withdrawn g gone g₁) (h₂ : Withdrawn g gone g₂) :
    g₁ = g₂ := by
  refine ext_lefts (h₁.start.trans h₂.start.symm)
    (fun left => (h₁.lefts left).trans (h₂.lefts left).symm) fun e => ?_
  by_cases he : gone e
  · rw [h₁.hit e he, h₂.hit e he]
  · rw [h₁.spared e he, h₂.spared e he]

/-- Every entry is still there. -/
theorem isSome_tag? (h : Withdrawn g gone g') (e : GrammarEntry) :
    (g'.tag? e).isSome = (g.tag? e).isSome := by
  by_cases he : gone e
  · rw [h.hit e he, Option.isSome_map]
  · rw [h.spared e he]

/-- So a call hits what it would have hit at first. -/
theorem target?_eq (h : Withdrawn g gone g') (call : RemovalCall) :
    call.target? g' = call.target? g := by
  unfold RemovalCall.target?
  simp only [h.isSome_tag?]

theorem answer_eq (h : Withdrawn g gone g') (call : RemovalCall) :
    call.answer g' = call.answer g := by
  rw [RemovalCall.answer, h.target?_eq, RemovalCall.answer]

/-- One more call adds the entry that it hits. -/
theorem perform (h : Withdrawn g gone g') (call : RemovalCall) :
    Withdrawn g (fun e => gone e ∨ call.target? g = some e) (call.edit.apply g').2 := by
  cases htarget : call.target? g with
  | none =>
      rw [apply_of_target?_eq_none ((h.target?_eq call).trans htarget)]
      simpa using h
  | some e =>
      have htarget' : call.target? g' = some e := (h.target?_eq call).trans htarget
      obtain ⟨tag, htag⟩ := exists_tag_of_target? htarget'
      rw [apply_of_target? htarget' htag]
      refine ⟨start_put.trans h.start,
        fun left => (contains_rules_put htag _ left).trans (h.lefts left), fun e' he' => ?_,
        fun e' he' => ?_⟩
      · rw [tag?_put]
        split
        · next heq =>
            subst heq
            -- The tag that is resolved once more was resolved already if the entry had been hit.
            by_cases hgone : gone e'
            · rw [h.hit e' hgone, Option.map_eq_some_iff] at htag
              obtain ⟨present, hpresent, rfl⟩ := htag
              rw [hpresent, Tag.resolve_resolve_removed, Option.map_some]
            · rw [← h.spared e' hgone, htag, Option.map_some]
        · next hne =>
            exact h.hit e' (he'.resolve_right fun heq => hne (Option.some.inj heq).symm)
      · rw [not_or] at he'
        rw [tag?_put, if_neg fun heq => he'.2 (congrArg some heq.symm), h.spared e' he'.1]

/-- Calls one after the other add all that they hit, and each answers what it would have answered
at first. -/
theorem performAll (h : Withdrawn g gone g') (calls : List RemovalCall) :
    Withdrawn g (fun e => gone e ∨ ∃ call ∈ calls, call.target? g = some e)
        (Edit.performAll RemovalCall.edit calls g') ∧
      Edit.answers RemovalCall.edit calls g' = calls.map (·.answer g) := by
  induction calls generalizing gone g' with
  | nil =>
      simp only [List.not_mem_nil, false_and, exists_false, or_false]
      exact ⟨h, rfl⟩
  | cons call calls ih =>
      obtain ⟨hrest, hanswers⟩ := ih (h.perform call)
      constructor
      · simp only [List.exists_mem_cons_iff, ← or_assoc]
        exact hrest
      · rw [Edit.answers, hanswers, apply_removalCall_fst, h.answer_eq, List.map_cons]

end Withdrawn

/-- The proposals fail to be made true only for a symbol that is missing. -/
theorem exists_danglingSymbol {err : EngineError} (h : (finalize.apply g).1 = .error err) :
    ∃ s user, err = .danglingSymbol s user := by
  rw [apply_finalize] at h
  rcases checkReferences_eq_error h with ⟨rfl, -⟩ | ⟨s, key, -, rfl, -⟩
  · exact ⟨_, _, rfl⟩
  · exact ⟨_, _, rfl⟩

/-- **Removals commute.**  Two lists of the same calls, in whatever order and with whatever
repetitions, lead to the same grammar, and every call, whether it succeeds or fails, answers what it
would have answered as the first.  So the proposals can be made true either after both or after
neither, with the same grammar or the same dangling symbol. -/
theorem removals_commute (g : Grammar) {calls calls' : List RemovalCall}
    (h : ∀ call, call ∈ calls ↔ call ∈ calls') :
    Edit.performAll RemovalCall.edit calls g = Edit.performAll RemovalCall.edit calls' g ∧
      Edit.answers RemovalCall.edit calls g = calls.map (fun call => (call.edit.apply g).1) ∧
      Edit.answers RemovalCall.edit calls' g = calls'.map (fun call => (call.edit.apply g).1) ∧
      finalize.apply (Edit.performAll RemovalCall.edit calls g)
        = finalize.apply (Edit.performAll RemovalCall.edit calls' g) ∧
      ∀ err, (finalize.apply (Edit.performAll RemovalCall.edit calls g)).1 = .error err →
        ∃ s user, err = .danglingSymbol s user := by
  obtain ⟨hcalls, hanswers⟩ := (Withdrawn.refl g).performAll calls
  obtain ⟨hcalls', hanswers'⟩ := (Withdrawn.refl g).performAll calls'
  have hsame : Edit.performAll RemovalCall.edit calls g
      = Edit.performAll RemovalCall.edit calls' g := by
    simp only [h] at hcalls
    exact hcalls.unique hcalls'
  simp only [apply_removalCall_fst]
  exact ⟨hsame, hanswers, hanswers', congrArg _ hsame, fun err => exists_danglingSymbol⟩

/-- The symbol goes first or last, the rule that mentions it goes once or twice, and one of the
calls asks for a symbol that is not there. -/
theorem removals_commute_choice :
    ∃ g', finalize.apply (Edit.performAll RemovalCall.edit
        [.symbol "b", .symbol "c", .rule ⟨"S", ⟨["b"]⟩⟩] choice) = (.ok (), g') ∧
      finalize.apply (Edit.performAll RemovalCall.edit
        [.rule ⟨"S", ⟨["b"]⟩⟩, .symbol "c", .rule ⟨"S", ⟨["b"]⟩⟩, .symbol "b"] choice)
          = (.ok (), g') := by
  have hcalls : ∀ call : RemovalCall,
      call ∈ [.symbol "b", .symbol "c", .rule ⟨"S", ⟨["b"]⟩⟩] ↔
        call ∈ [.rule ⟨"S", ⟨["b"]⟩⟩, .symbol "c", .rule ⟨"S", ⟨["b"]⟩⟩, .symbol "b"] := by
    intro call
    simp only [List.mem_cons]
    tauto
  obtain ⟨-, -, -, hfinalize, -⟩ := removals_commute choice hcalls
  exact ⟨_, Prod.ext (by decide) rfl, hfinalize.symm.trans (Prod.ext (by decide) rfl)⟩

end Grammar

end Chronicle
