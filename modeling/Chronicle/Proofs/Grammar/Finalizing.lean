import Chronicle.Proofs.Grammar.Integrity
import Chronicle.Proofs.Grammar.Removal
/-!
When the proposals can be made true, and what that leads to.

Entries that are not tagged removed are spared.  Finalizing deletes all others, and after that it
looks at the start symbol and at all rules that are left.  So whether it succeeds can be told
beforehand: every symbol that is mentioned by something spared has to be spared (`Mentions`).  If
one is not, the error names it, and what mentions it; and since nothing was dangling before, that
symbol is one that was to be removed.
-/

namespace Chronicle

namespace Grammar

variable {g g' : Grammar} {s : String} {user : SymbolUse} {err : EngineError} {e : GrammarEntry}

/-! ### What is spared -/

/-- The entry is there and not tagged removed. -/
def Spared (g : Grammar) (e : GrammarEntry) : Prop := ∃ tag, g.tag? e = some tag ∧ tag ≠ .removed

/-- The symbol, of whichever kind, is spared. -/
def Spares (g : Grammar) (s : String) : Prop :=
  g.Spared (.nonterminal s) ∨ g.Spared (.terminal s)

/-- The symbol, of whichever kind, is tagged removed. -/
def Dooms (g : Grammar) (s : String) : Prop :=
  g.tag? (.nonterminal s) = some .removed ∨ g.tag? (.terminal s) = some .removed

/-- What will still mention a symbol: the start symbol is itself one, and a spared rule has symbols
on both sides. -/
inductive Mentions (g : Grammar) : SymbolUse → String → Prop
  | start : Mentions g .start g.start
  | rule {key : RuleKey} {s : String} (h : g.Spared (.rule key))
      (hs : s ∈ key.left :: key.right.symbols) : Mentions g (.rule key) s

theorem spared_or_removed (h : g.Has e) : g.Spared e ∨ g.tag? e = some .removed := by
  obtain ⟨tag, htag⟩ := h
  by_cases hremoved : tag = .removed
  · exact .inr (hremoved ▸ htag)
  · exact .inl ⟨tag, htag, hremoved⟩

theorem spares_or_dooms (h : g.Knows s) : g.Spares s ∨ g.Dooms s := by
  rcases h with h | h
  · exact (spared_or_removed h).imp .inl .inl
  · exact (spared_or_removed h).imp .inr .inr

/-- A symbol that is spared is what is left of it. -/
theorem spares_iff_knows_settled : g.Spares s ↔ g.settled.Knows s := by
  rw [Knows, outline_settled]
  rfl

/-- Where no reference is dangling, all that will be mentioned is there. -/
theorem Mentions.knows (h : g.Mentions user s) (hclosed : g.outline.Closed) : g.Knows s := by
  cases h with
  | start => exact .inl hclosed.start
  | @rule key s hkey hs =>
      obtain ⟨tag, htag, -⟩ := hkey
      rcases List.mem_cons.mp hs with rfl | hs
      · exact .inl (hclosed.left key ⟨tag, htag⟩)
      · exact hclosed.right key ⟨tag, htag⟩ s hs

/-! ### The look at the references -/

/-- The error names what is missing and what mentions it. -/
theorem checkReferences_eq_error (h : g.checkReferences = .error err) :
    err = .danglingSymbol g.start .start ∧ g.start ∉ g.outline.nonterminals ∨
      ∃ s, ∃ key ∈ g.outline.rules, err = .danglingSymbol s (.rule key) ∧
        s ∈ key.left :: key.right.symbols ∧ ¬g.Knows s := by
  unfold checkReferences at h
  split at h
  · next hstart =>
      refine .inl ⟨(Except.error.inj h).symm, fun hc => ?_⟩
      simp [hasNonterminal_iff.mpr hc] at hstart
  · dsimp only at h
    split at h
    · next symbol key hfound =>
        obtain ⟨key', hkey', hmissing⟩ := List.exists_of_findSome?_eq_some hfound
        obtain ⟨s, hs, hpair⟩ := Option.map_eq_some_iff.mp hmissing
        obtain ⟨rfl, rfl⟩ := Prod.mk.inj hpair
        simp only [List.mem_flatMap, List.mem_map] at hkey'
        have hunknown : ¬g.containsSymbol s = true := by simpa using List.find?_some hs
        exact .inr ⟨s, key', mem_groups_iff.mp hkey', (Except.error.inj h).symm,
          List.mem_of_find?_eq_some hs, fun hc => hunknown (containsSymbol_iff.mpr hc)⟩
    · cases h

/-- The start symbol is a nonterminal, so it cannot be spared as anything else. -/
theorem Sound.spared_start (h : g.Sound) (hstart : g.Spares g.start) :
    g.Spared (.nonterminal g.start) := by
  rcases hstart with hstart | ⟨tag, htag, -⟩
  · exact hstart
  · exact absurd ⟨tag, htag⟩ (h.named.not_terminal h.closed.start)

theorem Sound.finalize_eq_ok_iff (h : g.Sound) :
    (finalize.apply g).1 = .ok () ↔ ∀ user s, g.Mentions user s → g.Spares s := by
  rw [apply_finalize, checkReferences_eq_ok, outline_settled]
  constructor
  · rintro ⟨hstart, hrules⟩ user s hmentions
    cases hmentions with
    | start => exact .inl hstart
    | rule hkey hs => exact hrules _ hkey s hs
  · intro hall
    exact ⟨h.spared_start (hall .start g.start .start),
      fun key hkey s hs => hall (.rule key) s (.rule hkey hs)⟩

theorem Sound.exists_of_finalize_error (h : g.Sound) (hfail : (finalize.apply g).1 = .error err) :
    ∃ s user, err = .danglingSymbol s user ∧ g.Mentions user s ∧ g.Dooms s := by
  have hmissing : ∃ s user, err = .danglingSymbol s user ∧ g.Mentions user s ∧ ¬g.Spares s := by
    rw [apply_finalize] at hfail
    rcases checkReferences_eq_error hfail with ⟨rfl, hstart⟩ | ⟨s, key, hkey, rfl, hs, hunknown⟩
    · rw [outline_settled] at hstart
      exact ⟨g.start, .start, rfl, .start, fun hc => hstart (h.spared_start hc)⟩
    · rw [outline_settled] at hkey
      rw [← spares_iff_knows_settled] at hunknown
      exact ⟨s, .rule key, rfl, .rule hkey hs, hunknown⟩
  obtain ⟨s, user, rfl, hmentions, hspares⟩ := hmissing
  exact ⟨s, user, rfl, hmentions, (spares_or_dooms (hmentions.knows h.closed)).resolve_left hspares⟩

/-- **Finalizing is exact.**  It succeeds if and only if the start symbol is spared and the spared
rules mention spared symbols only.  If it does, what was spared is what is left, all tags have
faded, the start symbol is the same, and no left side is without a rule.  If it does not, the error
names a symbol that was tagged removed and the start symbol or a spared rule that mentions it. -/
theorem Attained.finalize_exact (h : g.Attained) :
    ((finalize.apply g).1 = .ok () ↔ ∀ user s, g.Mentions user s → g.Spares s) ∧
      (∀ g', finalize.apply g = (.ok (), g') → g'.start = g.start ∧
        (∀ e, g'.Has e ↔ g.Spared e) ∧
        (∀ e tag, g.Spared e → g.tag? e = some tag → g'.tag? e = some tag.decay) ∧
        ∀ left group, g'.rules.get? left = some group → group.isEmpty = false) ∧
      ∀ err, (finalize.apply g).1 = .error err → ∃ s user, err = .danglingSymbol s user ∧
        g.Mentions user s ∧ g.Dooms s := by
  refine ⟨h.sound.finalize_eq_ok_iff, fun g' hfinalize => ?_,
    fun err => h.sound.exists_of_finalize_error⟩
  rw [apply_finalize] at hfinalize
  obtain ⟨-, rfl⟩ := Prod.mk.inj hfinalize
  refine ⟨rfl, fun e => has_settled, fun e tag hspared htag => ?_,
    fun left group => (dense_settled g).isEmpty_eq_false⟩
  obtain ⟨present, hpresent, hne⟩ := hspared
  obtain rfl : tag = present := Option.some.inj (htag.symm.trans hpresent)
  rw [tag?_settled, htag, Option.filter_some_pos (by simpa using hne)]
  rfl

/-- The one grammar can be finalized.  In the other a terminal is to be removed, but not the rule
that mentions it. -/
theorem Attained.finalize_exact_sample :
    (∀ user s, sampleProposed.Mentions user s → sampleProposed.Spares s) ∧
      ∃ s user, (finalize.apply ((removeSymbol "a").apply choice).2).1
          = .error (.danglingSymbol s user) ∧
        ((removeSymbol "a").apply choice).2.Mentions user s ∧
        ((removeSymbol "a").apply choice).2.Dooms s := by
  have hchoice : choice.Attained :=
    .ofData (show Grammar.ofData choice.toData = .ok choice by decide)
  have hremoved := hchoice.edit (.removeSymbol "a") (fun hc => by cases hc)
  have herror : (finalize.apply ((removeSymbol "a").apply choice).2).1
      = .error (.danglingSymbol "a" (.rule ⟨"S", ⟨["a"]⟩⟩)) := by decide
  obtain ⟨s, user, heq, hmentions⟩ := (Attained.finalize_exact hremoved).2.2 _ herror
  exact ⟨(Attained.finalize_exact attained_sampleProposed).1.mp (by decide), s, user,
    herror.trans (congrArg Except.error heq), hmentions⟩

end Grammar

end Chronicle
