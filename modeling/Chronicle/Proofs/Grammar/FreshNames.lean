import Chronicle.Proofs.Grammar.Admission
import Chronicle.Proofs.Grammar.Removal
import Mathlib.Data.List.Perm.Subperm
/-!
Names that are not in use.

A nonterminal under a name that is taken gets a longer one: `/0` is put behind the name for as long
as there is a symbol called so.  Nothing in that loop counts down.  It ends because the names that
it tries are all different and the grammar has only finitely many (`exists_least_free`), so the
bound under which a fresh name is looked for is never met (`lengthen_eq`), and the loop without a
bound ends with the same name (`Lengthens`).

What `/0` is put behind stays a name for a nonterminal, and so a desired name that is one is never
refused.
-/

namespace Chronicle

/-! ### Longer names -/

/-- The name with `/0` behind it, `count` times. -/
def lengthened (name : String) (count : Nat) : String :=
  name ++ String.join (List.replicate count "/0")

/-- Putting `/0` behind a name as long as it is taken ends with `result`. -/
inductive Lengthens (taken : String → Bool) : String → String → Prop
  | free {name : String} (h : taken name = false) : Lengthens taken name name
  | taken {name result : String} (h : taken name = true)
      (next : Lengthens taken (name ++ "/0") result) : Lengthens taken name result

@[simp] theorem lengthened_zero (name : String) : lengthened name 0 = name := by
  simp [lengthened]

theorem lengthened_succ (name : String) (count : Nat) :
    lengthened name (count + 1) = lengthened (name ++ "/0") count := by
  rw [lengthened, List.replicate_succ, String.join_cons, lengthened, String.append_assoc]

theorem length_lengthened (name : String) (count : Nat) :
    (lengthened name count).length = name.length + 2 * count := by
  induction count generalizing name with
  | zero => rw [lengthened_zero]; omega
  | succ count ih =>
      rw [lengthened_succ, ih, String.length_append]
      show name.length + 2 + 2 * count = name.length + 2 * (count + 1)
      omega

theorem lengthened_injective (name : String) : Function.Injective (lengthened name) := by
  intro count count' h
  have hlength := congrArg String.length h
  rw [length_lengthened, length_lengthened] at hlength
  omega

/-- `/0` behind a name for a nonterminal makes another one. -/
theorem SymbolKind.Names.append_suffix {name : String} (h : SymbolKind.nonterminal.Names name) :
    SymbolKind.nonterminal.Names (name ++ "/0") := by
  obtain ⟨c, hc, hupper⟩ := h.first.mpr rfl
  obtain ⟨rest, hname⟩ := List.head?_eq_some_iff.mp hc
  have hchars : (name ++ "/0").toList = c :: (rest ++ ['/', '0']) := by
    rw [String.toList_append, hname]
    rfl
  refine ⟨by simp [hchars], ?_, ?_, ?_⟩
  · intro hreserved
    -- The reserved text does not begin with a capital letter.
    rw [hreserved] at hchars
    have hfirst : 'e' = c := (List.cons.inj hchars).1
    rw [← hfirst] at hupper
    exact absurd hupper (by decide)
  · intro d hd
    rw [String.toList_append, List.mem_append] at hd
    rcases hd with hd | hd
    · exact h.chars d hd
    · have hsuffix : d = '/' ∨ d = '0' := by simpa using hd
      rcases hsuffix with rfl | rfl <;> decide
  · rw [hchars]
    exact ⟨fun _ => rfl, fun _ => ⟨c, rfl, hupper⟩⟩

theorem SymbolKind.Names.lengthen {name : String} (h : SymbolKind.nonterminal.Names name)
    (count : Nat) : SymbolKind.nonterminal.Names (lengthened name count) := by
  induction count generalizing name with
  | zero =>
      rw [lengthened_zero]
      exact h
  | succ count ih =>
      rw [lengthened_succ]
      exact ih h.append_suffix

/-! ### The loop -/

/-- If the first free name comes after `count` rounds, the loop ends with it, and so does the loop
that is cut off after so many rounds or more. -/
theorem lengthen_eq {taken : String → Bool} {name : String} {count : Nat}
    (hfree : taken (lengthened name count) = false)
    (htaken : ∀ i < count, taken (lengthened name i) = true) :
    Lengthens taken name (lengthened name count) ∧
      ∀ rounds, count ≤ rounds → Grammar.lengthen taken rounds name = lengthened name count := by
  induction count generalizing name with
  | zero =>
      rw [lengthened_zero] at hfree ⊢
      refine ⟨.free hfree, fun rounds _ => ?_⟩
      cases rounds with
      | zero => rfl
      | succ rounds => rw [Grammar.lengthen, if_neg (by simp [hfree])]
  | succ count ih =>
      have hname : taken name = true := by
        have hzero := htaken 0 (Nat.succ_pos count)
        rwa [lengthened_zero] at hzero
      rw [lengthened_succ] at hfree ⊢
      obtain ⟨hends, hbounded⟩ := ih hfree fun i hi => by
        rw [← lengthened_succ]
        exact htaken (i + 1) (by omega)
      refine ⟨.taken hname hends, fun rounds hrounds => ?_⟩
      obtain ⟨rounds, rfl⟩ : ∃ fewer, rounds = fewer + 1 := ⟨rounds - 1, by omega⟩
      rw [Grammar.lengthen, if_pos hname]
      exact hbounded rounds (by omega)

/-- Of the names that the loop tries one is free, at the latest when each of `names` was met. -/
theorem exists_least_free {taken : String → Bool} {names : List String}
    (htaken : ∀ name, taken name = true → name ∈ names) (name : String) :
    ∃ count ≤ names.length, taken (lengthened name count) = false ∧
      ∀ i < count, taken (lengthened name i) = true := by
  have hfree : ∃ count, count ≤ names.length ∧ taken (lengthened name count) = false := by
    by_contra hnone
    have htried : ∀ i ∈ List.range (names.length + 1), lengthened name i ∈ names := by
      intro i hi
      have hlt := List.mem_range.mp hi
      by_cases hfree : taken (lengthened name i) = false
      · exact absurd ⟨i, by omega, hfree⟩ hnone
      · exact htaken _ (Bool.of_not_eq_false hfree)
    -- There are more different names that were tried than there are names.
    have hnodup : ((List.range (names.length + 1)).map (lengthened name)).Nodup :=
      List.nodup_range.map (lengthened_injective name)
    have hsubset : (List.range (names.length + 1)).map (lengthened name) ⊆ names := by
      intro tried hmem
      obtain ⟨i, hi, rfl⟩ := List.mem_map.mp hmem
      exact htried i hi
    have hlength := (hnodup.subperm hsubset).length_le
    rw [List.length_map, List.length_range] at hlength
    omega
  classical
  obtain ⟨hbound, hleast⟩ := Nat.find_spec hfree
  refine ⟨Nat.find hfree, hbound, hleast, fun i hi => ?_⟩
  have hnot := Nat.find_min hfree hi
  by_contra hc
  exact hnot ⟨by omega, Bool.not_eq_true _ ▸ hc⟩

namespace Grammar

variable {g : Grammar} {name desired : String}

/-- A fresh name is found in fewer rounds than the grammar has symbols, or as many. -/
theorem freshName_eq (g : Grammar) (desired : String) :
    ∃ count ≤ g.nonterminals.size + g.terminals.size,
      g.freshName desired = lengthened desired count ∧
      Lengthens g.containsSymbol desired (lengthened desired count) ∧
      g.containsSymbol (lengthened desired count) = false ∧
      ∀ i < count, g.containsSymbol (lengthened desired i) = true := by
  have hnames : ∀ name, g.containsSymbol name = true →
      name ∈ g.nonterminals.keys ++ g.terminals.keys := by
    intro name hname
    rw [containsSymbol, Bool.or_eq_true, SortedMap.contains_iff, SortedMap.contains_iff] at hname
    exact List.mem_append.mpr hname
  have hlength : (g.nonterminals.keys ++ g.terminals.keys).length
      = g.nonterminals.size + g.terminals.size := by
    simp [SortedMap.keys, SortedMap.size]
  obtain ⟨count, hle, hfree, htaken⟩ := exists_least_free hnames desired
  rw [hlength] at hle
  obtain ⟨hends, hbounded⟩ := lengthen_eq hfree htaken
  exact ⟨count, hle, hbounded _ hle, hends, hfree, htaken⟩

/-- A nonterminal with a free name comes in as new. -/
theorem apply_addSymbol_free (hname : SymbolKind.nonterminal.Names name)
    (hfree : g.containsSymbol name = false) : (addSymbol name).apply g =
      (.ok ⟨name, .nonterminal, .new⟩, g.put (.nonterminal name) .new) := by
  have hkind : SymbolKind.ofName? name = some .nonterminal :=
    SymbolKind.ofName?_eq_some_iff.mpr hname
  have hget : (g.put (.nonterminal name) .new).nonterminals.get? name = some .new := by
    rw [put, SortedMap.get?_insert, if_pos rfl]
  have hadd : g.withSymbol name .new none = .ok (g.put (.nonterminal name) .new) := by
    rw [withSymbol, hkind]
    rfl
  have hsymbol : (g.put (.nonterminal name) .new).symbol? name
      = some ⟨name, .nonterminal, .new⟩ := by
    rw [symbol?, hget]
  rw [addSymbol, Edit.apply_atomic, if_neg (by simp [hfree]), hadd]
  simp only [bind, Except.bind, hsymbol]
  rfl

theorem apply_newNonterminal (hname : SymbolKind.nonterminal.Names desired) :
    (newNonterminal desired).apply g =
      (.ok (g.freshName desired), g.put (.nonterminal (g.freshName desired)) .new) := by
  have hkind : SymbolKind.ofName? desired = some .nonterminal :=
    SymbolKind.ofName?_eq_some_iff.mpr hname
  obtain ⟨count, -, hfresh, -, hfree, -⟩ := g.freshName_eq desired
  rw [hfresh]
  have hadd := apply_addSymbol_free (hname.lengthen count) hfree
  unfold newNonterminal
  rw [if_neg (by simp [hkind])]
  show Edit.apply (addSymbol (g.freshName desired) >>= fun _ => pure (g.freshName desired)) g = _
  rw [hfresh, Edit.apply_bind_of_ok hadd, Edit.apply_pure]

theorem apply_newNonterminal_of_not (hname : ¬SymbolKind.nonterminal.Names desired) :
    (newNonterminal desired).apply g =
      (.error (.invalidSymbolName desired (some .nonterminal)), g) := by
  have hkind : SymbolKind.ofName? desired ≠ some .nonterminal := fun hc =>
    hname (SymbolKind.ofName?_eq_some_iff.mp hc)
  unfold newNonterminal
  rw [if_pos hkind]
  exact Edit.apply_bind_of_error (Edit.apply_throw _ g) _

/-- **A fresh nonterminal is found for every name that may be one.**

The request fails exactly if the desired text is no name for a nonterminal, and then it changes
nothing.  Else the loop that looks for a free name ends, after no more rounds than there are
symbols; its result is the desired name with the least number of `/0` behind it that makes a name
of no symbol, be it one that is to be removed; and a nonterminal of that name, tagged new, is all
that the grammar has more. -/
theorem newNonterminal_fresh (g : Grammar) (desired : String) :
    ((∃ err, ((newNonterminal desired).apply g).1 = .error err) ↔
      ¬SymbolKind.nonterminal.Names desired) ∧
    (¬SymbolKind.nonterminal.Names desired → ((newNonterminal desired).apply g).2 = g) ∧
    (SymbolKind.nonterminal.Names desired → ∃ count name g',
      name = desired ++ String.join (List.replicate count "/0") ∧
      (newNonterminal desired).apply g = (.ok name, g') ∧
      Lengthens g.containsSymbol desired name ∧ count ≤ g.nonterminals.size + g.terminals.size ∧
      ¬g.Knows name ∧
      (∀ i < count, g.Knows (desired ++ String.join (List.replicate i "/0"))) ∧
      (∀ e, g'.tag? e = if e = .nonterminal name then some .new else g.tag? e) ∧
      g'.terminals = g.terminals ∧ g'.rules = g.rules ∧ g'.start = g.start) := by
  refine ⟨⟨?_, fun hname => ?_⟩, fun hname => ?_, fun hname => ?_⟩
  · rintro ⟨err, herr⟩ hname
    rw [apply_newNonterminal hname] at herr
    cases herr
  · rw [apply_newNonterminal_of_not hname]
    exact ⟨_, rfl⟩
  · rw [apply_newNonterminal_of_not hname]
  · obtain ⟨count, hle, hfresh, hends, hfree, htaken⟩ := g.freshName_eq desired
    refine ⟨count, lengthened desired count, g.put (.nonterminal (lengthened desired count)) .new,
      rfl, ?_, hends, hle, ?_, fun i hi => containsSymbol_iff.mp (htaken i hi),
      tag?_put g _ .new, rfl, rfl, rfl⟩
    · rw [apply_newNonterminal hname, hfresh]
    · intro hknown
      rw [containsSymbol_iff.mpr hknown] at hfree
      cases hfree

/-- The start symbol is to be removed, and its name is taken all the same. -/
theorem newNonterminal_fresh_choice :
    ∃ g' count, SymbolKind.nonterminal.Names "S" ∧
      (newNonterminal "S").apply (choice.put (.nonterminal "S") .removed) = (.ok "S/0", g') ∧
      "S/0" = "S" ++ String.join (List.replicate count "/0") ∧
      g'.tag? (.nonterminal "S/0") = some .new ∧
      g'.tag? (.nonterminal "S") = some .removed := by
  have hname : SymbolKind.nonterminal.Names "S" := by decide
  obtain ⟨-, -, hfound⟩ := newNonterminal_fresh (choice.put (.nonterminal "S") .removed) "S"
  obtain ⟨count, name, g', hshape, happly, -, -, -, -, htag, -⟩ := hfound hname
  have hanswer : ((newNonterminal "S").apply (choice.put (.nonterminal "S") .removed)).1
      = .ok "S/0" := by decide
  obtain rfl : name = "S/0" := by
    rw [happly] at hanswer
    exact Except.ok.inj hanswer
  refine ⟨g', count, hname, happly, hshape, ?_, ?_⟩
  · rw [htag, if_pos rfl]
  · rw [htag, if_neg (by decide)]
    decide

end Grammar

end Chronicle
