import Chronicle.Archive.Load
import Chronicle.Proofs.Archive.RoundTrip
import Chronicle.Proofs.Grammar.Integrity
import Chronicle.Proofs.Grammar.RoundTrip
/-!
Loading agrees with archiving.

A text is tried as a plain grammar first, and only if it is none as a tagged one.  This would be a
trap if a text could be both and meant something else each time.  But the plain form has lists
where the tagged form has maps, and no value is both.  So a text of both forms has neither symbols
nor rules, and both forms give the same data (`PlainGrammar.eq_toData_of_both`).  Whatever is a tagged grammar
is therefore loaded as one.

The archive of a grammar is never of the plain form, since its nonterminals are a map; a plain
grammar that is written down is of the plain form, and so each comes back as what it was.
-/

namespace Chronicle

namespace Json

variable {α β γ δ : Type} {read : Json → Option α} {read' : Json → Option β}

/-! ### Lists and maps -/

/-- No value is both a list and a map. -/
theorem toMap?_eq_none_of_toStrings? {v : Json} {items : List String}
    (h : v.toStrings? = some items) : v.toMap? read = none := by
  cases v with
  | array items => rfl
  | _ => cases h

/-- What is a map of lists as well as a map of maps has no keys. -/
theorem toMap?_both {v : Json} {lists : SortedMap String (List String)}
    {maps : SortedMap String (SortedMap String α)} (h : v.toMap? toStrings? = some lists)
    (h' : v.toMap? (toMap? read) = some maps) : lists = .empty ∧ maps = .empty := by
  cases v with
  | object members =>
      cases members with
      | nil => exact ⟨(Option.some.inj h).symm, (Option.some.inj h').symm⟩
      | cons member members =>
          -- The first value would have to be both.
          obtain ⟨key, value⟩ := member
          cases hlist : value.toStrings? with
          | none => simp [toMap?, hlist] at h
          | some items =>
              rw [toMap?] at h'
              simp [toMap?_eq_none_of_toStrings? hlist] at h'
  | _ => cases h

/-! ### Grammars of both forms -/

/-- A member that two readers can only both read as their defaults is the default, there or not. -/
theorem optional?_both {a default : α} {b default' : β}
    (hboth : ∀ v a b, read v = some a → read' v = some b → a = default ∧ b = default')
    {members : List (String × Json)} {key : String}
    (h : optional? read default members key = some a)
    (h' : optional? read' default' members key = some b) : a = default ∧ b = default' := by
  rw [optional?] at h h'
  cases hfixed : fixed? members key with
  | none => simp [hfixed] at h
  | some found =>
      cases found with
      | none =>
          simp only [hfixed] at h h'
          exact ⟨(Option.some.inj h).symm, (Option.some.inj h').symm⟩
      | some value =>
          simp only [hfixed] at h h'
          exact hboth value a b h h'

/-- The four parts of a grammar are members of an object, or the items of a list. -/
theorem toFour?_eq_some {n : Json → Option α} {t : Json → Option β} {p : Json → Option γ}
    {noN a : α} {noT b : β} {noP c : γ} {s : String} {json : Json}
    (h : json.toFour? n t p noN noT noP = some (a, b, c, s)) :
    (∃ members, json = object members ∧ optional? n noN members "N" = some a ∧
      optional? t noT members "T" = some b ∧ optional? p noP members "P" = some c ∧
      required? toString? members "S" = some s) ∨
    ∃ jn jt jp js, json = array [jn, jt, jp, js] ∧ n jn = some a ∧ t jt = some b ∧
      p jp = some c ∧ js.toString? = some s := by
  unfold toFour? at h
  split at h
  · next members =>
    simp only [Option.bind_eq_bind, Option.bind_eq_some_iff, Option.pure_def,
      Option.some.injEq, Prod.mk.injEq] at h
    obtain ⟨a', ha, b', hb, c', hc, s', hs, rfl, rfl, rfl, rfl⟩ := h
    exact .inl ⟨members, rfl, ha, hb, hc, hs⟩
  · next jn jt jp js =>
    simp only [Option.bind_eq_bind, Option.bind_eq_some_iff, Option.pure_def,
      Option.some.injEq, Prod.mk.injEq] at h
    obtain ⟨a', ha, b', hb, c', hc, s', hs, rfl, rfl, rfl, rfl⟩ := h
    exact .inr ⟨jn, jt, jp, js, rfl, ha, hb, hc, hs⟩
  · cases h

end Json

open Json

variable {json : Json} {plain : PlainGrammar} {data : GrammarData}

theorem PlainGrammar.ofJson?_eq_some (h : PlainGrammar.ofJson? json = some plain) :
    json.toFour? toStrings? toStrings? (toMap? toStrings?) [] [] .empty =
      some (plain.nonterminals, plain.terminals, plain.rules, plain.start) := by
  simp only [ofJson?, Option.bind_eq_bind, Option.bind_eq_some_iff] at h
  obtain ⟨⟨nonterminals, terminals, rules, start⟩, hfour, heq⟩ := h
  obtain rfl := Option.some.inj heq
  exact hfour

theorem GrammarData.ofJson?_eq_some (h : GrammarData.ofJson? json = some data) :
    json.toFour? (toMap? toOwnTag?) (toMap? toOwnTag?) (toMap? (toMap? toOwnTag?))
      .empty .empty .empty =
        some (data.nonterminals, data.terminals, data.rules, data.start) := by
  simp only [ofJson?, Option.bind_eq_bind, Option.bind_eq_some_iff] at h
  obtain ⟨⟨nonterminals, terminals, rules, start⟩, hfour, heq⟩ := h
  obtain rfl := Option.some.inj heq
  exact hfour

/-- **A value of both forms is the same grammar in both.** -/
theorem PlainGrammar.eq_toData_of_both (h : PlainGrammar.ofJson? json = some plain)
    (h' : GrammarData.ofJson? json = some data) : data = plain.toData := by
  have hplain := PlainGrammar.ofJson?_eq_some h
  have hdata := GrammarData.ofJson?_eq_some h'
  have hnever : ∀ (v : Json) (items : List String) (tags : SortedMap String Tag),
      v.toStrings? = some items → v.toMap? toOwnTag? = some tags → False := by
    intro v items tags hitems htags
    rw [toMap?_eq_none_of_toStrings? hitems] at htags
    cases htags
  obtain ⟨nonterminals, terminals, rules, start⟩ := plain
  obtain ⟨nonterminals', terminals', rules', start'⟩ := data
  rcases toFour?_eq_some hplain with ⟨members, rfl, hn, ht, hp, hs⟩ | ⟨jn, jt, jp, js, rfl, hn, -⟩
  · rcases toFour?_eq_some hdata with ⟨members', heq, hn', ht', hp', hs'⟩ | ⟨_, _, _, _, heq, -⟩
    · obtain rfl := Json.object.inj heq
      obtain ⟨rfl, rfl⟩ := optional?_both (fun v a b ha hb => (hnever v a b ha hb).elim) hn hn'
      obtain ⟨rfl, rfl⟩ := optional?_both (fun v a b ha hb => (hnever v a b ha hb).elim) ht ht'
      obtain ⟨rfl, rfl⟩ := optional?_both (fun v a b => toMap?_both) hp hp'
      obtain rfl := Option.some.inj (hs.symm.trans hs')
      rfl
    · cases heq
  · rcases toFour?_eq_some hdata with ⟨_, heq, -⟩ | ⟨_, _, _, _, heq, hn', -⟩
    · cases heq
    · simp only [Json.array.injEq, List.cons.injEq] at heq
      obtain ⟨rfl, -⟩ := heq
      exact (hnever _ _ _ hn hn').elim

namespace Grammar

variable {g : Grammar} {text : String}

/-- What is of the tagged form is loaded as a tagged grammar, whatever else it may be. -/
theorem ofJson_of_tagged (h : GrammarData.ofJson? json = some data) :
    ofJson json = (ofData data).mapError .engine := by
  rw [ofJson]
  cases hplain : PlainGrammar.ofJson? json with
  | none => simp only [h]
  | some plain =>
      rw [PlainGrammar.eq_toData_of_both hplain h]
      rfl

theorem ofJson_of_plain (h : PlainGrammar.ofJson? json = some plain) :
    ofJson json = (ofPlain plain).mapError .engine := by
  rw [ofJson, h]

/-- What is read from a text is loaded from it. -/
theorem load_eq_of_ofText? (h : ofText? text = some json) : load text = ofJson json := by
  rw [load, h]

/-- **Loading agrees with archiving.**  A grammar is loaded from its archive as it was, on one line
and over several.  From a plain grammar that is written down the loader makes what is made of the
plain grammar, be it a grammar or an error.  A text of both forms means the same in both; so no
text of the tagged form is hidden by the plain form that is tried first. -/
theorem load_agrees :
    (∀ g : Grammar, g.Attained →
      load (compactText g.toData.toJson) = .ok g ∧ load (prettyText g.toData.toJson) = .ok g) ∧
    (∀ plain : PlainGrammar,
      load (compactText plain.toJson) = (ofPlain plain).mapError .engine ∧
      load (prettyText plain.toJson) = (ofPlain plain).mapError .engine) ∧
    (∀ (text : String) (plain : PlainGrammar) (data : GrammarData),
      (ofText? text).bind PlainGrammar.ofJson? = some plain →
      (ofText? text).bind GrammarData.ofJson? = some data → ofPlain plain = ofData data) ∧
    ∀ (text : String) (data : GrammarData), (ofText? text).bind GrammarData.ofJson? = some data →
      load text = (ofData data).mapError .engine := by
  refine ⟨fun g hg => ?_, fun plain => ?_, fun text plain data hplain hdata => ?_,
    fun text data hdata => ?_⟩
  · have hproper := GrammarData.faithful.proper g.toData
    have hload : ofJson g.toData.toJson = .ok g := by
      rw [ofJson_of_tagged (GrammarData.faithful.read_write g.toData), hg.sound.ofData_toData]
      rfl
    exact ⟨(load_eq_of_ofText? (ofText?_compactText hproper)).trans hload,
      (load_eq_of_ofText? (ofText?_prettyText hproper)).trans hload⟩
  · have hproper := PlainGrammar.faithful.proper plain
    have hload := ofJson_of_plain (PlainGrammar.faithful.read_write plain)
    exact ⟨(load_eq_of_ofText? (ofText?_compactText hproper)).trans hload,
      (load_eq_of_ofText? (ofText?_prettyText hproper)).trans hload⟩
  · obtain ⟨json, htext, hplain⟩ := Option.bind_eq_some_iff.mp hplain
    rw [htext, Option.bind_some] at hdata
    rw [PlainGrammar.eq_toData_of_both hplain hdata, ofPlain]
  · obtain ⟨json, htext, hdata⟩ := Option.bind_eq_some_iff.mp hdata
    rw [load_eq_of_ofText? htext, ofJson_of_tagged hdata]

/-- A grammar that says no more than its start symbol is of both forms. -/
def sampleOfBoth : Json := .object [("S", .string "S")]

theorem load_agrees_sample :
    load (prettyText sampleProposed.toData.toJson) = .ok sampleProposed ∧
      (ofText? (compactText sampleOfBoth)).bind PlainGrammar.ofJson? =
        some ⟨[], [], .empty, "S"⟩ ∧
      (ofText? (compactText sampleOfBoth)).bind GrammarData.ofJson? =
        some ⟨.empty, .empty, .empty, "S"⟩ ∧
      load (compactText sampleOfBoth) =
        (ofData ⟨.empty, .empty, .empty, "S"⟩).mapError .engine := by
  have hread : ofText? (compactText sampleOfBoth) = some sampleOfBoth :=
    ofText?_compactText (.object (by simp [Proper.string]))
  have hplain : (ofText? (compactText sampleOfBoth)).bind PlainGrammar.ofJson? =
      some ⟨[], [], .empty, "S"⟩ := by
    rw [hread]
    decide
  have htagged : (ofText? (compactText sampleOfBoth)).bind GrammarData.ofJson? =
      some ⟨.empty, .empty, .empty, "S"⟩ := by
    rw [hread]
    decide
  exact ⟨(load_agrees.1 sampleProposed attained_sampleProposed).2, hplain, htagged,
    load_agrees.2.2.2 _ _ htagged⟩

end Grammar

end Chronicle
