import Chronicle.Proofs.Grammar.Integrity
import Chronicle.Proofs.Grammar.Removal
/-!
The exchange of a rule.

To exchange a rule is to propose its removal, to add a rule with the same left side, and to mark
that one as replaced.  Both proposals are resolved against the tags that are there, so a rule that
is exchanged for itself is one that is removed, and a removal is final.  On a grammar in which
nothing is new and nothing is removed that is the only surprise: the exchange adds the new rule to
the others and takes away the old one, in this order (`Outline.exchange`,
`replacement_takes_effect`).
-/

namespace Chronicle

namespace Tag

/-- A rule that was neither added nor removed is marked as replaced, also if it was there. -/
theorem resolve_duplicate_replaced {present : Tag} (hnew : present ≠ new)
    (hremoved : present ≠ removed) : (present.resolve duplicate).resolve replaced = replaced := by
  cases present <;> first | rfl | contradiction

end Tag

namespace Outline

/-- The outline with the rule in addition that has the left side of `old` and another right side,
and without `old`. -/
def exchange (o : Outline) (old : RuleKey) (right : Word) : Outline :=
  { o with rules := {key | (key ∈ o.rules ∨ key = ⟨old.left, right⟩) ∧ key ≠ old} }

/-- The new rule mentions symbols that are there, as all other rules do. -/
theorem Closed.exchange {o : Outline} {old : RuleKey} {right : Word} (h : o.Closed)
    (hleft : old.left ∈ o.nonterminals)
    (hright : ∀ s ∈ right.symbols, s ∈ o.nonterminals ∨ s ∈ o.terminals) :
    (o.exchange old right).Closed := by
  refine ⟨h.start, fun key hkey => ?_, fun key hkey => ?_⟩
  · rcases hkey.1 with hrule | rfl
    · exact h.left key hrule
    · exact hleft
  · rcases hkey.1 with hrule | rfl
    · exact h.right key hrule
    · exact hright

end Outline

namespace Grammar

variable {g g' : Grammar} {left : String} {right : Word} {old key : RuleKey} {tag : Tag}
  {err : EngineError}

/-! ### Adding and removing a rule -/

/-- What is asked of a rule that is to come in. -/
def requireRule (g : Grammar) (left : String) (right : Word) : Except EngineError Unit := do
  g.requireNonterminal left
  g.requireWord right

theorem requireRule_eq_ok : g.requireRule left right = .ok () ↔ g.Admits (.rule ⟨left, right⟩) := by
  constructor
  · intro h
    obtain ⟨_, hleft, hright⟩ := exists_of_bind_eq_ok h
    exact ⟨requireNonterminal_eq_ok.mp hleft, requireWord_eq_ok.mp hright⟩
  · intro h
    rw [requireRule, requireNonterminal_eq_ok.mpr h.1]
    exact requireWord_eq_ok.mpr h.2

/-- Only symbols are asked for, so it does not matter which rules there are. -/
theorem requireRule_put (g : Grammar) (key : RuleKey) (tag : Tag) (left : String) (right : Word) :
    (g.put (.rule key) tag).requireRule left right = g.requireRule left right := rfl

theorem addRule_of_refused (h : g.requireRule left right = .error err) :
    (addRule left right).apply g = (.error err, g) := by
  rw [addRule, Edit.apply_atomic]
  unfold requireRule at h
  cases hleft : g.requireNonterminal left with
  | error err' =>
      rw [hleft] at h
      obtain rfl := Except.error.inj h
      rfl
  | ok _ =>
      rw [hleft] at h
      simp only [bind, Except.bind] at h ⊢
      rw [h]

/-- A rule that is admitted comes in as new, or is marked as a duplicate. -/
theorem addRule_of_admitted (h : g.requireRule left right = .ok ()) :
    (addRule left right).apply g = (.ok ⟨left, right⟩, g.put (.rule ⟨left, right⟩)
      ((g.tag? (.rule ⟨left, right⟩)).elim .new (·.resolve .duplicate))) := by
  obtain ⟨_, hleft, hright⟩ := exists_of_bind_eq_ok h
  rw [addRule, Edit.apply_atomic, hleft]
  simp only [bind, Except.bind, hright]
  rfl

/-! ### The exchange -/

theorem replaceRule_of_unknown (h : g.tag? (.rule old) = none) :
    (replaceRule old right).apply g = (.error (.unknownRule old), g) := by
  rw [replaceRule, Edit.apply_bind_of_error (removeRule_of_unknown h)]

/-- If the new right side is refused, the removal has been proposed. -/
theorem replaceRule_of_refused (h : g.tag? (.rule old) = some tag)
    (hrefused : g.requireRule old.left right = .error err) :
    (replaceRule old right).apply g = (.error err, g.put (.rule old) (tag.resolve .removed)) := by
  have hadd : (addRule old.left right).apply (g.put (.rule old) (tag.resolve .removed))
      = (.error err, g.put (.rule old) (tag.resolve .removed)) :=
    addRule_of_refused ((requireRule_put g old _ old.left right).trans hrefused)
  exact (Edit.apply_bind_of_ok (removeRule_of_tag h) _).trans (Edit.apply_bind_of_error hadd _)

/-- The tag of a rule that is added. -/
def addedTag (g : Grammar) (key : RuleKey) : Tag :=
  (g.tag? (.rule key)).elim .new (·.resolve .duplicate)

/-- The grammar after a rule with this tag was exchanged. -/
def exchanged (g : Grammar) (old : RuleKey) (tag : Tag) (right : Word) : Grammar :=
  let key : RuleKey := ⟨old.left, right⟩
  let proposed := g.put (.rule old) (tag.resolve .removed)
  (proposed.put (.rule key) (proposed.addedTag key)).put (.rule key)
    ((proposed.addedTag key).resolve .replaced)

theorem replaceRule_of_admitted (h : g.tag? (.rule old) = some tag)
    (hadmitted : g.requireRule old.left right = .ok ()) :
    (replaceRule old right).apply g = (.ok ⟨old.left, right⟩, g.exchanged old tag right) := by
  let proposed := g.put (.rule old) (tag.resolve .removed)
  have hadd := addRule_of_admitted
    ((requireRule_put g old (tag.resolve .removed) old.left right).trans hadmitted)
  have hthere : (proposed.put (.rule ⟨old.left, right⟩) (proposed.addedTag ⟨old.left, right⟩)).tag?
      (.rule ⟨old.left, right⟩) = some (proposed.addedTag ⟨old.left, right⟩) := by
    rw [tag?_put, if_pos rfl]
  exact (Edit.apply_bind_of_ok (removeRule_of_tag h) _).trans
    ((Edit.apply_bind_of_ok hadd _).trans (Edit.apply_bind_of_ok (apply_markRule hthere _) _))

@[simp]
theorem start_exchanged : (g.exchanged old tag right).start = g.start := by
  simp [exchanged]

/-- Where nothing was new or removed, the old rule is removed and the new one is replaced; of a rule
that is both it is the removal that stays. -/
theorem tag?_exchanged (h : g.tag? (.rule old) = some tag) (hnew : ∀ e, g.tag? e ≠ some .new)
    (hremoved : ∀ e, g.tag? e ≠ some .removed) (right : Word) (e : GrammarEntry) :
    (g.exchanged old tag right).tag? e =
      if e = .rule old then some .removed
      else if e = .rule ⟨old.left, right⟩ then some .replaced else g.tag? e := by
  have htag : tag.resolve .removed = .removed :=
    (Tag.resolve_eq_removed fun hc => hnew _ (hc ▸ h)).mpr (.inr rfl)
  rw [exchanged, htag, tag?_put, tag?_put, tag?_put]
  by_cases hkey : e = .rule ⟨old.left, right⟩
  · rw [if_pos hkey, if_pos hkey, addedTag, tag?_put]
    by_cases hold : e = .rule old
    · -- The rule is exchanged for itself.
      rw [if_pos hold, if_pos (hkey.symm.trans hold)]
      rfl
    · rw [if_neg hold, if_neg fun hc => hold (hkey.trans hc)]
      cases hpresent : g.tag? (.rule ⟨old.left, right⟩) with
      | none => rfl
      | some present =>
          have hne : present ≠ .new := fun hc => hnew _ (hc ▸ hpresent)
          have hne' : present ≠ .removed := fun hc => hremoved _ (hc ▸ hpresent)
          rw [Option.elim_some, Tag.resolve_duplicate_replaced hne hne']
  · rw [if_neg hkey, if_neg hkey, if_neg hkey]

/-- What is left when the proposals are made true. -/
theorem future_exchanged (h : g.tag? (.rule old) = some tag) (hnew : ∀ e, g.tag? e ≠ some .new)
    (hremoved : ∀ e, g.tag? e ≠ some .removed) (right : Word) :
    (g.exchanged old tag right).future = g.outline.exchange old right := by
  have hmem : ∀ e, (∃ tag', (g.exchanged old tag right).tag? e = some tag' ∧ tag' ≠ .removed) ↔
      (g.Has e ∨ e = .rule ⟨old.left, right⟩) ∧ e ≠ .rule old := by
    intro e
    rw [tag?_exchanged h hnew hremoved]
    by_cases hold : e = .rule old
    · simp [hold]
    · rw [if_neg hold]
      by_cases hkey : e = .rule ⟨old.left, right⟩
      · have hne : (⟨old.left, right⟩ : RuleKey) ≠ old := fun hc => hold (hkey.trans (by rw [hc]))
        simp [hkey, hne]
      · rw [if_neg hkey]
        simp only [hkey, hold, or_false, ne_eq, not_false_eq_true, and_true]
        exact ⟨fun ⟨present, hp, _⟩ => ⟨present, hp⟩,
          fun ⟨present, hp⟩ => ⟨present, hp, fun hc => hremoved e (hc ▸ hp)⟩⟩
  ext x
  · rw [future, start_exchanged]
    rfl
  · exact (hmem (.nonterminal x)).trans (by simp [outline, Outline.ofEntries, Outline.exchange])
  · exact (hmem (.terminal x)).trans (by simp [outline, Outline.ofEntries, Outline.exchange])
  · exact (hmem (.rule x)).trans (by simp [outline, Outline.ofEntries, Outline.exchange])

/-- If no reference was dangling before the exchange, none is when its proposals are made true. -/
theorem finalize_exchanged (h : g.tag? (.rule old) = some tag) (hnew : ∀ e, g.tag? e ≠ some .new)
    (hremoved : ∀ e, g.tag? e ≠ some .removed) (hclosed : g.outline.Closed)
    (hadmitted : g.Admits (.rule ⟨old.left, right⟩)) :
    finalize.apply (g.exchanged old tag right)
      = (.ok (), (g.exchanged old tag right).settled) := by
  refine finalize_of_check (checkReferences_of_closed ?_)
  rw [outline_settled, future_exchanged h hnew hremoved]
  exact hclosed.exchange hadmitted.1 hadmitted.2

/-- **An exchange adds the new rule and takes away the old one.**  On a grammar in which nothing is
new or removed it succeeds for every rule and every word over symbols of the grammar, as long as the
left side is a nonterminal.  When the proposals are made true, which succeeds if no reference was
dangling, the symbols are the same, and the rules are those that there were and the new one, without
the old one. -/
theorem replacement_takes_effect (hnew : ∀ e, g.tag? e ≠ some .new)
    (hremoved : ∀ e, g.tag? e ≠ some .removed) (hold : old ∈ g.outline.rules)
    (hright : ∀ s ∈ right.symbols, g.Knows s) :
    ((∃ key g₁, (replaceRule old right).apply g = (.ok key, g₁)) ↔
        old.left ∈ g.outline.nonterminals) ∧
      ∀ key g₁, (replaceRule old right).apply g = (.ok key, g₁) →
        key = ⟨old.left, right⟩ ∧ (g.outline.Closed → (finalize.apply g₁).1 = .ok ()) ∧
        ∀ g₂, finalize.apply g₁ = (.ok (), g₂) → g₂.outline = g.outline.exchange old right := by
  obtain ⟨tag, htag⟩ := hold
  have hiff : g.Admits (.rule ⟨old.left, right⟩) ↔ old.left ∈ g.outline.nonterminals :=
    ⟨fun h => h.1, fun h => ⟨h, hright⟩⟩
  by_cases hadmitted : g.Admits (.rule ⟨old.left, right⟩)
  · have happly := replaceRule_of_admitted htag (requireRule_eq_ok.mpr hadmitted)
    refine ⟨⟨fun _ => hiff.mp hadmitted, fun _ => ⟨_, _, happly⟩⟩, fun key g₁ h => ?_⟩
    obtain ⟨hkey, rfl⟩ := Prod.mk.inj (happly.symm.trans h)
    refine ⟨(Except.ok.inj hkey).symm, fun hclosed => ?_, fun g₂ hfinalize => ?_⟩
    · rw [finalize_exchanged htag hnew hremoved hclosed hadmitted]
    · rw [apply_finalize] at hfinalize
      rw [← (Prod.mk.inj hfinalize).2, outline_settled, future_exchanged htag hnew hremoved]
  · have hfail : ∀ key g₁, (replaceRule old right).apply g ≠ (.ok key, g₁) := by
      intro key g₁ h
      cases hrequire : g.requireRule old.left right with
      | ok _ => exact hadmitted (requireRule_eq_ok.mp hrequire)
      | error err => cases (Prod.mk.inj ((replaceRule_of_refused htag hrequire).symm.trans h)).1
    exact ⟨⟨fun ⟨key, g₁, h⟩ => absurd h (hfail key g₁), fun h => absurd (hiff.mpr h) hadmitted⟩,
      fun key g₁ h => absurd h (hfail key g₁)⟩

theorem intact_choice : choice.Intact :=
  (built_choice.intact (show finalize.apply choice = (.ok (), choice) by decide)).2

/-- The new rule is there already. -/
theorem replacement_takes_effect_choice :
    ∃ g₁ g₂, (replaceRule ⟨"S", ⟨["b"]⟩⟩ ⟨["a"]⟩).apply choice = (.ok ⟨"S", ⟨["a"]⟩⟩, g₁) ∧
      finalize.apply g₁ = (.ok (), g₂) ∧
      g₂.outline = choice.outline.exchange ⟨"S", ⟨["b"]⟩⟩ ⟨["a"]⟩ := by
  have hold : ⟨"S", ⟨["b"]⟩⟩ ∈ choice.outline.rules := ⟨.none, by decide⟩
  have hright : ∀ s ∈ (⟨["a"]⟩ : Word).symbols, choice.Knows s := by
    simp only [List.mem_singleton, forall_eq]
    exact .inr ⟨.none, by decide⟩
  obtain ⟨hsucceeds, heffect⟩ :=
    replacement_takes_effect intact_choice.old intact_choice.not_removed hold hright
  obtain ⟨key, g₁, happly⟩ := hsucceeds.mpr ⟨.none, by decide⟩
  obtain ⟨rfl, hfinalize, houtline⟩ := heffect key g₁ happly
  have hfinalized : finalize.apply g₁ = (.ok (), g₁.settled) :=
    Prod.ext (hfinalize intact_choice.closed) (by rw [apply_finalize])
  exact ⟨g₁, _, happly, hfinalized, houtline _ hfinalized⟩

/-- The grammar `A -> a`, `S -> a` after the symbol `A` alone was removed, and the proposals were made
true all the same. -/
def stranded : Grammar :=
  ⟨.ofList [("S", .none)], .ofList [("a", .none)],
    .ofList [("A", .ofList [(⟨["a"]⟩, .none)]), ("S", .ofList [(⟨["a"]⟩, .none)])], "S"⟩

theorem built_stranded : stranded.Built := by
  let whole : Grammar := { stranded with nonterminals := .ofList [("A", .none), ("S", .none)] }
  have hwhole : whole.Built := .ofData (show Grammar.ofData whole.toData = .ok whole by decide)
  let proposed := ((Operation.removeSymbol "A").edit.apply whole).2
  have hstranded : (Operation.finalize.edit.apply proposed).2 = stranded := by decide
  exact hstranded ▸ (hwhole.edit (.removeSymbol "A")).edit .finalize

/-- A rule that is exchanged for itself is gone, and one whose left side is gone is not exchanged. -/
theorem replacement_not_exact :
    (¬∀ (g g₁ g₂ : Grammar) (old key : RuleKey) (right : Word), g.Attained →
      (∀ e, g.tag? e ≠ some .new) → (∀ e, g.tag? e ≠ some .removed) → old ∈ g.outline.rules →
      (∀ s ∈ right.symbols, g.Knows s) → (replaceRule old right).apply g = (.ok key, g₁) →
      finalize.apply g₁ = (.ok (), g₂) →
        g₂.outline.rules = insert ⟨old.left, right⟩ (g.outline.rules \ {old})) ∧
    ¬∀ (g : Grammar) (old : RuleKey) (right : Word), g.Built →
      (∀ e, g.tag? e ≠ some .new) → (∀ e, g.tag? e ≠ some .removed) → old ∈ g.outline.rules →
      (∀ s ∈ right.symbols, g.Knows s) →
        ∃ key g₁, (replaceRule old right).apply g = (.ok key, g₁) := by
  constructor
  · intro hall
    let old : RuleKey := ⟨"S", ⟨["b"]⟩⟩
    have htag : choice.tag? (.rule old) = some .none := by decide
    have hadmitted : choice.Admits (.rule old) := by
      refine ⟨⟨.none, by decide⟩, ?_⟩
      simp only [old, List.mem_singleton, forall_eq]
      exact .inr ⟨.none, by decide⟩
    have hrules := hall choice _ _ old old old.right
      (.ofData (show Grammar.ofData choice.toData = .ok choice by decide))
      intact_choice.old intact_choice.not_removed ⟨_, htag⟩ hadmitted.2
      (replaceRule_of_admitted htag (requireRule_eq_ok.mpr hadmitted))
      (finalize_exchanged htag intact_choice.old intact_choice.not_removed intact_choice.closed
        hadmitted)
    rw [outline_settled, future_exchanged htag intact_choice.old intact_choice.not_removed]
      at hrules
    have hmem : old ∈ (choice.outline.exchange old old.right).rules := by
      rw [hrules]
      exact Set.mem_insert _ _
    exact hmem.2 rfl
  · intro hall
    have hsettled : stranded.settled = stranded := by decide
    obtain ⟨key, g₁, happly⟩ := hall stranded ⟨"A", ⟨["a"]⟩⟩ ⟨[]⟩ built_stranded
      (hsettled ▸ settled_old stranded) (hsettled ▸ settled_not_removed stranded)
      ⟨.none, by decide⟩ (by simp)
    have hresult : ((replaceRule ⟨"A", ⟨["a"]⟩⟩ ⟨[]⟩).apply stranded).1
        = .error (.unknownSymbol "A") := by decide
    rw [happly] at hresult
    cases hresult

end Grammar

end Chronicle
