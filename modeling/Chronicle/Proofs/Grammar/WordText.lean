import Chronicle.Proofs.Grammar.Admission
/-!
Which words come back from their texts.

A text joins the symbols of a word by blanks, and reading it takes it apart at any blanks, so an
empty symbol is lost, one with a blank in it falls into pieces, and the single symbol that is
written like the empty word is taken for it.  Nothing else goes wrong: what can be read from a text
at all is `Legible`, and the legible words are exactly those that come back (`ofText_text_iff`).
Names of symbols are never empty, hold no blank and are not the text of the empty word, so every
word over names is legible.
-/

namespace Chronicle

/-! ### Characters of names -/

theorem isBlank_of_graphic {c : Char} (low : 0x20 < c.toNat) (high : c.toNat < 0x7F) :
    Text.isBlank c = false := by
  have low' : 0x20 < c.val.toNat := low
  have high' : c.val.toNat < 0x7F := high
  simp only [Text.isBlank, Bool.or_eq_false_iff, Bool.and_eq_false_iff, decide_eq_false_iff_not,
    beq_eq_false_iff_ne, ne_eq, ← UInt32.toNat_inj, UInt32.le_iff_toNat_le, UInt32.reduceToNat]
  omega

theorem isBlank_of_between {c : Char} (low high : Char) (hlow : 0x20 < low.toNat)
    (hhigh : high.toNat < 0x7F) (h : low.val ≤ c.val ∧ c.val ≤ high.val) :
    Text.isBlank c = false := by
  have hgraphic : low.toNat ≤ c.toNat ∧ c.toNat ≤ high.toNat :=
    h.imp UInt32.le_iff_toNat_le.mp UInt32.le_iff_toNat_le.mp
  exact isBlank_of_graphic (by omega) (by omega)

/-- The characters of names separate nothing. -/
theorem isBlank_of_isNameChar {c : Char} (h : SymbolKind.isNameChar c = true) :
    Text.isBlank c = false := by
  have hcases : ((c.isUpper = true ∨ c.isLower = true) ∨ c.isDigit = true) ∨
      c ∈ SymbolKind.punctuation := by
    rw [← List.contains_iff_mem, ← Bool.or_eq_true, ← Bool.or_eq_true, ← Bool.or_eq_true]
    exact h
  rcases hcases with ((hupper | hlower) | hdigit) | hmark
  · exact isBlank_of_between 'A' 'Z' (by decide) (by decide) (of_decide_eq_true hupper)
  · have hbounds := (Bool.and_eq_true _ _).mp hlower
    exact isBlank_of_between 'a' 'z' (by decide) (by decide)
      (hbounds.imp of_decide_eq_true of_decide_eq_true)
  · have hbounds := (Bool.and_eq_true _ _).mp hdigit
    exact isBlank_of_between '0' '9' (by decide) (by decide)
      (hbounds.imp of_decide_eq_true of_decide_eq_true)
  · have hall : ∀ d ∈ SymbolKind.punctuation, 0x20 < d.toNat ∧ d.toNat < 0x7F := by
      simp [SymbolKind.punctuation]
    exact isBlank_of_graphic (hall c hmark).1 (hall c hmark).2

/-! ### Symbols in a text -/

/-- A symbol that a text can hold: it is not empty, and no blank parts it. -/
structure Text.Solid (symbol : String) : Prop where
  nonempty : symbol ≠ ""
  unbroken : ∀ c ∈ symbol.toList, isBlank c = false

theorem Text.solid_iff {symbol : String} :
    Solid symbol ↔ symbol.toList ≠ [] ∧ ∀ c ∈ symbol.toList, isBlank c = false := by
  constructor
  · intro h
    exact ⟨mt String.toList_eq_nil_iff.mp h.nonempty, h.unbroken⟩
  · intro h
    exact ⟨mt String.toList_eq_nil_iff.mpr h.1, h.2⟩

theorem Text.solid_of_mem_words {text symbol : String} (h : symbol ∈ words text) :
    Solid symbol := by
  obtain ⟨field, hfield, rfl⟩ := List.mem_map.mp h
  rw [solid_iff, String.toList_ofList]
  exact of_mem_fields hfield

theorem Text.words_intercalate {symbols : List String} (h : ∀ s ∈ symbols, Solid s) :
    words (" ".intercalate symbols) = symbols := by
  have hblank : " ".toList = [' '] := rfl
  rw [words, String.toList_intercalate, hblank, fields_intercalate, List.map_map]
  · simp [Function.comp_def]
  · intro field hfield
    obtain ⟨s, hs, rfl⟩ := List.mem_map.mp hfield
    exact solid_iff.mp (h s hs)

/-- A name that may be given to a symbol can stand in a text, and is not the empty word. -/
theorem name_of_isSome {s : String} (h : (SymbolKind.ofName? s).isSome) :
    Text.Solid s ∧ s ≠ epsilonText := by
  obtain ⟨kind, hkind⟩ := Option.isSome_iff_exists.mp h
  have hname := SymbolKind.ofName?_eq_some_iff.mp hkind
  have hunbroken : ∀ c ∈ s.toList, Text.isBlank c = false :=
    fun c hc => isBlank_of_isNameChar (hname.chars c hc)
  exact ⟨Text.solid_iff.mpr ⟨hname.nonempty, hunbroken⟩, hname.reserved⟩

/-! ### Words -/

namespace Word

variable {w w' : Word}

/-- Each symbol can stand in a text, and together they are not written like the empty word. -/
structure Legible (w : Word) : Prop where
  solid : ∀ s ∈ w.symbols, Text.Solid s
  reserved : w.symbols ≠ [epsilonText]

/-- What is read from a text is legible, whatever the text. -/
theorem legible_ofText (text : String) : (ofText text).Legible := by
  unfold ofText
  dsimp only
  split
  · exact ⟨by simp [epsilon], by simp [epsilon]⟩
  · next hreserved => exact ⟨fun s hs => Text.solid_of_mem_words hs, hreserved⟩

theorem Legible.ofText_text (h : w.Legible) : ofText w.text = w := by
  obtain ⟨symbols⟩ := w
  cases symbols with
  | nil => decide
  | cons first rest =>
      have hwords : Text.words (" ".intercalate (first :: rest)) = first :: rest :=
        Text.words_intercalate h.solid
      show (if Text.words (" ".intercalate (first :: rest)) = [epsilonText] then epsilon
        else ⟨Text.words (" ".intercalate (first :: rest))⟩) = _
      rw [hwords, if_neg h.reserved]

theorem ofText_text_iff : ofText w.text = w ↔ w.Legible := by
  constructor
  · intro h
    rw [← h]
    exact legible_ofText w.text
  · exact Legible.ofText_text

theorem legible_of_names (h : ∀ s ∈ w.symbols, (SymbolKind.ofName? s).isSome) : w.Legible := by
  refine ⟨fun s hs => (name_of_isSome (h s hs)).1, fun heq => ?_⟩
  have hmem : epsilonText ∈ w.symbols := by simp [heq]
  exact (name_of_isSome (h _ hmem)).2 rfl

/-- A word of names comes back from its text. -/
theorem ofText_text (h : ∀ s ∈ w.symbols, (SymbolKind.ofName? s).isSome) : ofText w.text = w :=
  (legible_of_names h).ofText_text

/-- Among the words that come back no two have the same text. -/
theorem Legible.eq_of_text_eq (h : w.Legible) (h' : w'.Legible) (htext : w.text = w'.text) :
    w = w' := by
  rw [← h.ofText_text, htext, h'.ofText_text]

/-- **Reading, writing and reading again is reading once**, and the words that come back from their
texts are exactly the legible ones.  Those over names of symbols are among them, so their texts tell
them apart. -/
theorem comes_back_exactly :
    (∀ text : String, ofText (ofText text).text = ofText text) ∧
      (∀ symbols : List String, ofText (Word.mk symbols).text = ⟨symbols⟩ ↔
        (∀ s ∈ symbols, s ≠ "" ∧ ∀ c ∈ s.toList, Text.isBlank c = false) ∧
          symbols ≠ [epsilonText]) ∧
      (∀ w : Word, (∀ s ∈ w.symbols, (SymbolKind.ofName? s).isSome) → ofText w.text = w) ∧
      ∀ w w' : Word, (∀ s ∈ w.symbols, (SymbolKind.ofName? s).isSome) →
        (∀ s ∈ w'.symbols, (SymbolKind.ofName? s).isSome) → w ≠ w' → w.text ≠ w'.text := by
  refine ⟨fun text => (legible_ofText text).ofText_text, fun symbols => ?_,
    fun w hnames => ofText_text hnames, fun w w' hnames hnames' => ?_⟩
  · rw [ofText_text_iff]
    constructor
    · intro h
      exact ⟨fun s hs => ⟨(h.solid s hs).nonempty, (h.solid s hs).unbroken⟩, h.reserved⟩
    · intro h
      exact ⟨fun s hs => ⟨(h.1 s hs).1, (h.1 s hs).2⟩, h.2⟩
  · exact mt ((legible_of_names hnames).eq_of_text_eq (legible_of_names hnames'))

/-- A text with blanks of several kinds, two symbols that are written like the empty word next to
one that is, a symbol with a blank in it, and two words over names. -/
theorem comes_back_exactly_sample :
    ofText (ofText "\t a\u3000S\u00A0eps ").text = ⟨["a", "S", "eps"]⟩ ∧
      ofText (Word.mk ["eps", "eps"]).text = ⟨["eps", "eps"]⟩ ∧
      ofText (Word.mk ["eps"]).text ≠ ⟨["eps"]⟩ ∧
      ofText (Word.mk ["a\u2003b"]).text ≠ ⟨["a\u2003b"]⟩ ∧
      ofText (Word.mk ["S/0", "(", "a"]).text = ⟨["S/0", "(", "a"]⟩ ∧
      (Word.mk ["S/0", "(", "a"]).text ≠ (Word.mk ["S/0", "(a"]).text := by
  obtain ⟨hagain, hexactly, hnames, hdistinct⟩ := comes_back_exactly
  have hthree : ∀ s ∈ (Word.mk ["S/0", "(", "a"]).symbols, (SymbolKind.ofName? s).isSome := by
    decide
  have htwo : ∀ s ∈ (Word.mk ["S/0", "(a"]).symbols, (SymbolKind.ofName? s).isSome := by decide
  refine ⟨(hagain _).trans (by decide), (hexactly _).mpr ?_, mt (hexactly _).mp ?_,
    mt (hexactly _).mp ?_, hnames _ hthree, hdistinct _ _ hthree htwo (by decide)⟩
  · simp [Text.isBlank, epsilonText]
  · simp [epsilonText]
  · simp [Text.isBlank]

end Word

end Chronicle
