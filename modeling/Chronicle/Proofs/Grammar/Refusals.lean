import Chronicle.Proofs.Grammar.Exchange
/-!
What a failed operation leaves.

Nearly all operations look at what they need before they change anything, so one that fails leaves
the grammar as it was (`Edit.LooksFirst`).  Finalizing is none of these, and neither is the exchange
of a rule: it is a removal and then an addition, and each of the two looks for itself.  If the
addition is refused the removal stays proposed (`replaceRule_failed`), so the exchange changes the
grammar when it fails exactly if the removal alone would (`Removable`).
-/

namespace Chronicle

namespace Tag

/-- To be removed means nothing to an entry that is new, and nothing new to one that is removed. -/
theorem resolve_removed_eq_self {tag : Tag} :
    tag.resolve removed = tag ↔ tag = new ∨ tag = removed := by
  cases tag <;> decide

end Tag

namespace Edit

variable {σ α β : Type} {e : Edit σ α}

/-- Without its answer an edit fails as it does with it. -/
theorem error_of_apply_discard {s next : σ} {err : EngineError}
    (h : apply (discard e) s = (.error err, next)) : apply e s = (.error err, next) := by
  have hmap : ((e.apply s).1.map (Function.const α ()), (e.apply s).2) = (.error err, next) :=
    (apply_map _ _ _).symm.trans h
  rcases hres : e.apply s with ⟨err' | a, next'⟩
  · rw [hres] at hmap
    exact Prod.ext (congrArg Except.error (Except.error.inj (Prod.mk.inj hmap).1))
      (Prod.mk.inj hmap).2
  · rw [hres] at hmap
    cases (Prod.mk.inj hmap).1

/-- An edit that has changed nothing if it fails. -/
def LooksFirst (e : Edit σ α) : Prop := ∀ s err next, e.apply s = (.error err, next) → next = s

namespace LooksFirst

theorem atomic (f : σ → Except EngineError (α × σ)) : LooksFirst (atomic f) :=
  fun _ _ _ h => apply_atomic_error h

theorem discard (he : LooksFirst e) : LooksFirst (discard e) :=
  fun s err next h => he s err next (error_of_apply_discard h)

/-- What comes after reading the state. -/
theorem get {f : σ → Edit σ α} (h : ∀ s, LooksFirst (f s)) :
    LooksFirst (MonadState.get >>= f) := fun s => h s s

/-- What is only made of the answer cannot fail any more. -/
theorem bind_pure (he : LooksFirst e) (f : α → β) : LooksFirst (e >>= fun a => pure (f a)) := by
  intro s err next h
  rcases hres : e.apply s with ⟨err' | a, next'⟩
  · rw [apply_bind_of_error hres] at h
    obtain ⟨-, rfl⟩ := Prod.mk.inj h
    exact he s err' _ hres
  · rw [apply_bind_of_ok hres] at h
    cases (Prod.mk.inj h).1

end LooksFirst

end Edit

namespace Grammar

variable {g g' : Grammar} {name left : String} {right : Word} {old key : RuleKey} {tag : Tag}
  {err : EngineError} {op : Operation}

/-! ### Single operations -/

/-- A symbol that has come in is there. -/
theorem exists_symbol?_of_withSymbol {expected : Option SymbolKind}
    (h : g.withSymbol name tag expected = .ok g') : ∃ symbol, g'.symbol? name = some symbol := by
  obtain ⟨kind, -, -, rfl⟩ := withSymbol_eq_ok h
  unfold symbol?
  cases kind with
  | nonterminal =>
      have hget : (g.put (.nonterminal name) tag).nonterminals.get? name = some tag := by
        rw [put, SortedMap.get?_insert, if_pos rfl]
      exact ⟨_, by rw [GrammarEntry.symbol, hget]⟩
  | terminal =>
      have hget : (g.put (.terminal name) tag).terminals.get? name = some tag := by
        rw [put, SortedMap.get?_insert, if_pos rfl]
      rw [GrammarEntry.symbol, hget]
      cases (g.put (.terminal name) tag).nonterminals.get? name <;> exact ⟨_, rfl⟩

/-- A name that no symbol may have is the only reason not to add one.  A symbol that has come in is
always found, so it is never the look-up that fails, with the symbol there already. -/
theorem addSymbol_failed (h : (addSymbol name).apply g = (.error err, g')) :
    g.withSymbol name .new none = .error err ∧ g' = g := by
  rw [addSymbol, Edit.apply_atomic] at h
  by_cases hknown : g.containsSymbol name = true
  · -- The symbol is there, and then it is also found.
    rw [if_pos hknown] at h
    have hfound : g.symbol? name ≠ none := by
      intro hnone
      unfold symbol? at hnone
      rcases containsSymbol_iff.mp hknown with ⟨tag, htag⟩ | ⟨tag, htag⟩
      · rw [show g.nonterminals.get? name = some tag from htag] at hnone
        cases hnone
      · rw [show g.terminals.get? name = some tag from htag] at hnone
        cases hget : g.nonterminals.get? name <;> simp [hget] at hnone
    obtain ⟨symbol, hsymbol⟩ := Option.ne_none_iff_exists'.mp hfound
    simp [hsymbol, pure, Except.pure, bind, Except.bind] at h
  · rw [if_neg hknown] at h
    cases hadd : g.withSymbol name .new none with
    | error err' =>
        rw [hadd] at h
        obtain ⟨herr, rfl⟩ := Prod.mk.inj h
        exact ⟨congrArg Except.error (Except.error.inj herr), rfl⟩
    | ok g₁ =>
        obtain ⟨symbol, hsymbol⟩ := exists_symbol?_of_withSymbol hadd
        simp [hadd, hsymbol, pure, Except.pure, bind, Except.bind] at h

theorem looksFirst_addSymbol (name : String) : (addSymbol name).LooksFirst :=
  fun _ _ _ h => (addSymbol_failed h).2

theorem looksFirst_newNonterminal (desired : String) : (newNonterminal desired).LooksFirst := by
  unfold newNonterminal
  split
  · -- The name is refused before the grammar is looked at.
    intro g err g' h
    rw [Edit.apply_bind_of_error (Edit.apply_throw _ g)] at h
    exact (Prod.mk.inj h).2.symm
  · exact .get fun g => .bind_pure (looksFirst_addSymbol _) _

/-! ### The exchange of a rule -/

/-- An exchange is refused because the rule is not there, and changes nothing, or because its new
right side is refused, and then it has already proposed to remove the rule. -/
theorem replaceRule_failed (h : (replaceRule old right).apply g = (.error err, g')) :
    g.tag? (.rule old) = none ∧ g' = g ∨ ∃ tag, g.tag? (.rule old) = some tag ∧
      g.requireRule old.left right = .error err ∧
      g' = g.put (.rule old) (tag.resolve .removed) := by
  cases hold : g.tag? (.rule old) with
  | none =>
      rw [replaceRule_of_unknown hold] at h
      exact .inl ⟨rfl, (Prod.mk.inj h).2.symm⟩
  | some tag =>
      cases hrequire : g.requireRule old.left right with
      | ok _ =>
          rw [replaceRule_of_admitted hold hrequire] at h
          cases (Prod.mk.inj h).1
      | error err' =>
          rw [replaceRule_of_refused hold hrequire] at h
          obtain ⟨herr, rfl⟩ := Prod.mk.inj h
          exact .inr ⟨tag, rfl, by rw [Except.error.inj herr], rfl⟩

/-- The rule is there, and to remove it would change the grammar: it was not added in the step under
way, and its removal is not proposed. -/
def Removable (g : Grammar) (key : RuleKey) : Prop :=
  ∃ tag, g.tag? (.rule key) = some tag ∧ tag ≠ .new ∧ tag ≠ .removed

theorem put_eq_self_iff {e : GrammarEntry} {tag' : Tag} (h : g.tag? e = some tag) :
    g.put e tag' = g ↔ tag' = tag := by
  constructor
  · intro heq
    have htag := tag?_put g e tag' e
    rw [heq, if_pos rfl, h] at htag
    exact (Option.some.inj htag).symm
  · rintro rfl
    exact put_tag h

theorem put_removed_eq_self_iff (h : g.tag? (.rule key) = some tag) :
    g.put (.rule key) (tag.resolve .removed) = g ↔ ¬g.Removable key := by
  rw [put_eq_self_iff h, Tag.resolve_removed_eq_self]
  constructor
  · rintro heq ⟨tag', htag', hnew, hremoved⟩
    obtain rfl : tag = tag' := Option.some.inj (h.symm.trans htag')
    exact heq.elim hnew hremoved
  · intro hnot
    by_contra hne
    rw [not_or] at hne
    exact hnot ⟨tag, h, hne⟩

/-- What a refused exchange leaves. -/
theorem replaceRule_failed_iff (h : (replaceRule old right).apply g = (.error err, g')) :
    (g' = g ↔ ¬g.Removable old) ∧
      (g.Removable old → g.requireRule old.left right = .error err ∧
        g' = g.put (.rule old) .removed) := by
  rcases replaceRule_failed h with ⟨hnone, rfl⟩ | ⟨tag, htag, hrefused, rfl⟩
  · have hnot : ¬g'.Removable old := by
      rintro ⟨tag, htag, -⟩
      rw [hnone] at htag
      cases htag
    exact ⟨⟨fun _ => hnot, fun _ => rfl⟩, fun hremovable => absurd hremovable hnot⟩
  · refine ⟨put_removed_eq_self_iff htag, fun ⟨tag', htag', hnew, _⟩ => ⟨hrefused, ?_⟩⟩
    obtain rfl : tag = tag' := Option.some.inj (htag.symm.trans htag')
    rw [(Tag.resolve_eq_removed hnew).mpr (.inr rfl)]

/-- Operations that look before they change anything. -/
theorem Operation.looksFirst (hfinalize : op ≠ .finalize)
    (hreplace : ∀ old right, op ≠ .replaceRule old right) : op.edit.LooksFirst := by
  cases op with
  | addSymbol name => exact (looksFirst_addSymbol name).discard
  | newNonterminal desired => exact (looksFirst_newNonterminal desired).discard
  | removeSymbol name => exact .discard (.atomic _)
  | addRule left right => exact .discard (.atomic _)
  | removeRule key => exact .discard (.atomic _)
  | replaceRule old right => exact absurd rfl (hreplace old right)
  | changeStart name => exact .atomic _
  | markSymbol name tag => exact .discard (.atomic _)
  | markRule key tag => exact .discard (.atomic _)
  | clearTags => exact fun g err g' h => by cases (Prod.mk.inj h).1
  | finalize => exact absurd rfl hfinalize

/-- **An operation that fails changes nothing, unless it was to exchange a rule.**  An exchange that
fails changes nothing either if the rule is not there, is new or is to be removed anyway; else its
new right side was refused, and the removal of the rule is left as the one change. -/
theorem Operation.failed (hfinalize : op ≠ .finalize) (hfail : op.edit.apply g = (.error err, g')) :
    (g' = g ↔ ¬∃ old right, op = .replaceRule old right ∧ g.Removable old) ∧
      ∀ old right, op = .replaceRule old right → g.Removable old →
        g.requireRule old.left right = .error err ∧ g' = g.put (.rule old) .removed := by
  by_cases hreplace : ∃ old right, op = .replaceRule old right
  · obtain ⟨old, right, rfl⟩ := hreplace
    obtain ⟨hiff, hleft⟩ := replaceRule_failed_iff (Edit.error_of_apply_discard hfail)
    refine ⟨hiff.trans (not_congr ⟨fun h => ⟨old, right, rfl, h⟩, ?_⟩), ?_⟩
    · rintro ⟨_, _, heq, h⟩
      exact (Operation.replaceRule.inj heq).1 ▸ h
    · intro _ _ heq h
      obtain ⟨rfl, rfl⟩ := Operation.replaceRule.inj heq
      exact hleft h
  · have hlooks := Operation.looksFirst hfinalize fun old right heq => hreplace ⟨old, right, heq⟩
    refine ⟨⟨fun _ ⟨old, right, heq, _⟩ => hreplace ⟨old, right, heq⟩, fun _ => ?_⟩,
      fun old right heq => absurd ⟨old, right, heq⟩ hreplace⟩
    exact hlooks g err g' hfail

/-- The new right side mentions a symbol that is not there. -/
theorem Operation.failed_choice :
    (Operation.replaceRule ⟨"S", ⟨["a"]⟩⟩ ⟨["b", "X"]⟩).edit.apply choice =
      (.error (.unknownSymbol "X"), choice.put (.rule ⟨"S", ⟨["a"]⟩⟩) .removed) := by
  let op := Operation.replaceRule ⟨"S", ⟨["a"]⟩⟩ ⟨["b", "X"]⟩
  have hfail : op.edit.apply choice = (.error (.unknownSymbol "X"), (op.edit.apply choice).2) :=
    Prod.ext (by decide) rfl
  have hleft := (Operation.failed (by simp [op]) hfail).2 _ _ rfl ⟨.none, by decide⟩
  rw [hfail, hleft.2]

/-- An exchange that failed has changed the grammar. -/
theorem failed_exchange_changes :
    ¬∀ (g g' : Grammar) (op : Operation) (err : EngineError), g.Built → op ≠ .finalize →
      op.edit.apply g = (.error err, g') → g' = g := by
  intro hall
  let op := Operation.replaceRule ⟨"S", ⟨["a"]⟩⟩ ⟨["X"]⟩
  have hsame : (op.edit.apply choice).2 = choice :=
    hall choice _ op (.unknownSymbol "X") built_choice (by simp [op]) (Prod.ext (by decide) rfl)
  exact absurd hsame (by decide)

end Grammar

end Chronicle
