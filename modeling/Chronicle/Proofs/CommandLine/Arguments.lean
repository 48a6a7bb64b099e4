import Chronicle.CommandLine.Options
import Chronicle.Proofs.Edit
import Chronicle.Proofs.Text.Numeral
/-!
The grammar of the command line.

A list of arguments is made of items: an option, with its value if it takes one, or a word that
names an input (`Item`).  Arguments are accepted exactly if they are a row of items with one input
among them, and what they ask for is read off the items, the last value of an option counting
(`accepted_exactly`).  So between items of different options the order makes no difference.

There is no choice in where an item ends: an option takes what follows it for its value, whatever it
looks like, and everything else is an item of its own.  That is why arguments are a row of items in
one way at most (`flatMap_words_injective`).
-/

namespace Chronicle

theorem Procedure.ofName?_eq_some_iff {p : Procedure} {name : String} :
    ofName? name = some p ↔ p.name = name := by
  constructor
  · intro h
    simpa using List.find?_some h
  · rintro rfl
    exact ofName?_name p

namespace CommandLine

variable {arguments rest rest' : List String} {p q : Progress} {item item' : Item}
  {items items' : List Item} {options : Options}

/-! ### Items -/

/-- A piece of the command line that is complete in itself. -/
inductive Item
  | json
  | procedure (option : String) (spelled : option = "--procedure" ∨ option = "-p") (p : Procedure)
  | batchSize (value : String) (size : Nat) (denotes : Text.Denotes value size)
      (fits : size < 2 ^ 64)
  | input (word : String) (bare : word.toList.head? ≠ some '-')

/-- What an item is about. -/
inductive Setting
  | json
  | procedure
  | batchSize
  | input
deriving DecidableEq, Repr

namespace Item

/-- The arguments that spell the item. -/
def words : Item → List String
  | json => ["--json"]
  | procedure option _ p => [option, p.name]
  | batchSize value _ _ _ => ["--batch", value]
  | input word _ => [word]

def setting : Item → Setting
  | json => .json
  | procedure .. => .procedure
  | batchSize .. => .batchSize
  | input .. => .input

def isJson (item : Item) : Bool := item.setting = .json

def procedure? : Item → Option Procedure
  | procedure _ _ p => some p
  | _ => none

def batchSize? : Item → Option Nat
  | batchSize _ size _ _ => some size
  | _ => none

def input? : Item → Option String
  | input word _ => some word
  | _ => none

theorem input?_eq_none {item : Item} (h : item.setting ≠ .input) : item.input? = none := by
  cases item with
  | input => exact absurd rfl h
  | json | procedure | batchSize => rfl

theorem procedure?_eq_none {item : Item} (h : item.setting ≠ .procedure) :
    item.procedure? = none := by
  cases item with
  | procedure => exact absurd rfl h
  | json | batchSize | input => rfl

theorem batchSize?_eq_none {item : Item} (h : item.setting ≠ .batchSize) :
    item.batchSize? = none := by
  cases item with
  | batchSize => exact absurd rfl h
  | json | procedure | input => rfl

/-- What has been read once the item is read as well. -/
def read (p : Progress) : Item → Except UsageError Progress
  | json => .ok { p with json := true }
  | procedure _ _ chosen => .ok { p with procedure := chosen }
  | batchSize _ size _ _ => .ok { p with batchSteps := some size }
  | input word _ =>
    if p.input.isSome then .error .secondInput else .ok { p with input := some word }

/-- No option is a word that could be an input. -/
theorem ne_option_of_bare {word : String} (bare : word.toList.head? ≠ some '-') :
    ¬(word = "--procedure" ∨ word = "-p") ∧ word ≠ "--batch" ∧ word ≠ "--json" := by
  refine ⟨?_, ?_, ?_⟩
  · rintro (rfl | rfl)
    · exact bare (by decide)
    · exact bare (by decide)
  · rintro rfl
    exact bare (by decide)
  · rintro rfl
    exact bare (by decide)

theorem parseDecimal?_of_denotes {value : String} {size : Nat} (denotes : Text.Denotes value size)
    (fits : size < 2 ^ 64) : Text.parseDecimal? maxBatchSize value = some size :=
  Text.parseDecimal?_eq_some_iff.mpr ⟨denotes, Nat.le_of_lt_succ fits⟩

/-- An item is read as a whole, whatever comes behind it. -/
theorem readArguments_words (item : Item) (p : Progress) (rest : List String) :
    readArguments p (item.words ++ rest) =
      (item.read p).bind fun q => readArguments q rest := by
  cases item with
  | json =>
      rw [words, List.singleton_append, readArguments.eq_def]
      dsimp only
      rw [if_neg (by decide), if_neg (by decide), if_pos rfl]
      rfl
  | procedure option spelled procedure =>
      rw [words, List.cons_append, List.singleton_append, readArguments, if_pos spelled]
      simp only [Procedure.ofName?_name]
      rfl
  | batchSize value size denotes fits =>
      rw [words, List.cons_append, List.singleton_append, readArguments, if_neg (by decide),
        if_pos rfl]
      simp only [parseDecimal?_of_denotes denotes fits]
      rfl
  | input word bare =>
      obtain ⟨hprocedure, hbatch, hjson⟩ := ne_option_of_bare bare
      rw [words, List.singleton_append, readArguments.eq_def]
      dsimp only
      rw [if_neg hprocedure, if_neg hbatch, if_neg hjson, if_neg bare, read]
      split <;> rfl

end Item

theorem readArguments_flatMap (items : List Item) (p : Progress) :
    readArguments p (items.flatMap Item.words) = items.foldlM Item.read p := by
  induction items generalizing p with
  | nil => rfl
  | cons item items ih =>
      rw [List.flatMap_cons, item.readArguments_words, List.foldlM_cons]
      exact congrArg (item.read p).bind (funext ih)

/-- What can be read is a row of items. -/
theorem exists_items_of_readArguments (h : readArguments p arguments = .ok q) :
    ∃ items : List Item, items.flatMap Item.words = arguments := by
  fun_induction readArguments p arguments with
  | case1 => exact ⟨[], rfl⟩
  | case3 p option hoption name rest procedure hname ih =>
      obtain ⟨items, rfl⟩ := ih h
      obtain rfl := Procedure.ofName?_eq_some_iff.mp hname
      exact ⟨.procedure option hoption procedure :: items, rfl⟩
  | case6 p value rest steps hvalue _ ih =>
      obtain ⟨items, rfl⟩ := ih h
      obtain ⟨hdenotes, hfits⟩ := Text.parseDecimal?_eq_some_iff.mp hvalue
      exact ⟨.batchSize value steps hdenotes (Nat.lt_succ_of_le hfits) :: items, rfl⟩
  | case8 p rest _ _ ih =>
      obtain ⟨items, rfl⟩ := ih h
      exact ⟨.json :: items, rfl⟩
  | case11 p name rest _ _ _ hbare _ ih =>
      obtain ⟨items, rfl⟩ := ih h
      exact ⟨.input name hbare :: items, rfl⟩
  | case2 | case4 | case5 | case7 | case9 | case10 => cases h

/-! ### What the items ask for -/

/-- What has been read once the items are read as well, if that can be. -/
def Progress.after (p : Progress) (items : List Item) : Progress where
  input := (p.input.toList ++ items.filterMap Item.input?).head?
  procedure := (items.filterMap Item.procedure?).getLast?.getD p.procedure
  batchSteps := (items.filterMap Item.batchSize?).getLast?.or p.batchSteps
  json := p.json || items.any Item.isJson

theorem Progress.after_nil (p : Progress) : p.after [] = p := by
  obtain ⟨_ | present, procedure, batchSteps, json⟩ := p <;> simp [Progress.after]

/-- An item that is read takes its place in front of the others. -/
theorem Progress.after_cons (h : item.read p = .ok q) (items : List Item) :
    p.after (item :: items) = q.after items ∧
      p.input.toList ++ (item :: items).filterMap Item.input? =
        q.input.toList ++ items.filterMap Item.input? := by
  cases item with
  | json =>
      obtain rfl := Except.ok.inj h
      have hjson : (p.json || (Item.json :: items).any Item.isJson)
          = (true || items.any Item.isJson) := by
        simp [Item.isJson, Item.setting]
      exact ⟨Progress.mk.injEq .. ▸ ⟨rfl, rfl, rfl, hjson⟩, rfl⟩
  | procedure option spelled chosen =>
      obtain rfl := Except.ok.inj h
      have hlast : (chosen :: items.filterMap Item.procedure?).getLast?.getD p.procedure
          = (items.filterMap Item.procedure?).getLast?.getD chosen := by
        rw [List.getLast?_cons, Option.getD_some]
      exact ⟨Progress.mk.injEq .. ▸ ⟨rfl, hlast, rfl, rfl⟩, rfl⟩
  | batchSize value size denotes fits =>
      obtain rfl := Except.ok.inj h
      have hlast : (size :: items.filterMap Item.batchSize?).getLast?.or p.batchSteps
          = (items.filterMap Item.batchSize?).getLast?.or (some size) := by
        rw [List.getLast?_cons, Option.some_or, Option.or_some]
      exact ⟨Progress.mk.injEq .. ▸ ⟨rfl, rfl, hlast, rfl⟩, rfl⟩
  | input word bare =>
      obtain ⟨_ | present, procedure, batchSteps, json⟩ := p
      · obtain rfl := Except.ok.inj h
        exact ⟨rfl, rfl⟩
      · cases h

/-- Nothing but a second input can be wrong with items. -/
theorem foldlM_read (items : List Item) (p : Progress) :
    items.foldlM Item.read p =
      if (p.input.toList ++ items.filterMap Item.input?).length ≤ 1 then .ok (p.after items)
      else .error .secondInput := by
  induction items generalizing p with
  | nil =>
      have hfew : (p.input.toList ++ [].filterMap Item.input?).length ≤ 1 := by
        cases p.input <;> simp
      rw [Progress.after_nil, if_pos hfew]
      rfl
  | cons item items ih =>
      rw [List.foldlM_cons]
      cases hread : item.read p with
      | ok q =>
          obtain ⟨hafter, hinputs⟩ := Progress.after_cons hread items
          rw [hafter, hinputs]
          exact ih q
      | error e =>
          cases item with
          | input word bare =>
              obtain ⟨_ | present, procedure, batchSteps, json⟩ := p
              · cases hread
              · obtain rfl := Except.error.inj hread
                have hmany : ¬([present] ++ word :: items.filterMap Item.input?).length ≤ 1 := by
                  simp
                exact (if_neg hmany).symm
          | json | procedure | batchSize => cases hread

/-- What the items ask for, if there is one input among them. -/
def Options.ofItems (items : List Item) : Except UsageError Options :=
  match items.filterMap Item.input? with
  | [] => .error .noInput
  | [input] =>
    .ok ⟨input, (items.filterMap Item.procedure?).getLast?.getD .reduce,
      (items.filterMap Item.batchSize?).getLast?, items.any Item.isJson⟩
  | _ => .error .secondInput

theorem ofArguments_flatMap (items : List Item) :
    Options.ofArguments (items.flatMap Item.words) = Options.ofItems items := by
  have hread := foldlM_read items {}
  unfold Options.ofArguments Options.ofItems
  rw [readArguments_flatMap, hread]
  rcases hinputs : items.filterMap Item.input? with _ | ⟨input, _ | ⟨second, more⟩⟩
  · simp [Progress.after, hinputs]
    rfl
  · simp [Progress.after, hinputs]
    rfl
  · simp
    rfl

theorem ofItems_eq_ok_iff : Options.ofItems items = .ok options ↔
    ∃ input, items.filterMap Item.input? = [input] ∧
      options = ⟨input, (items.filterMap Item.procedure?).getLast?.getD .reduce,
        (items.filterMap Item.batchSize?).getLast?, items.any Item.isJson⟩ := by
  unfold Options.ofItems
  rcases items.filterMap Item.input? with _ | ⟨input, _ | ⟨second, more⟩⟩
  · simp
  · simp [eq_comm]
  · simp

/-! ### Order -/

/-- The items of each option, and the inputs, are the same and in the same order. -/
def Reordered (items items' : List Item) : Prop :=
  ∀ setting, items.filter (·.setting = setting) = items'.filter (·.setting = setting)

/-- What can be said of items of one kind is not changed by the others. -/
theorem filterMap_filter_setting {α : Type} {f : Item → Option α} {setting : Setting}
    (hf : ∀ item, item.setting ≠ setting → f item = none) (items : List Item) :
    (items.filter (·.setting = setting)).filterMap f = items.filterMap f := by
  rw [List.filterMap_filter]
  congr 1
  funext item
  by_cases h : item.setting = setting
  · simp [h]
  · simp [h, hf item h]

theorem Reordered.filterMap_eq {α : Type} (h : Reordered items items') {f : Item → Option α}
    (setting : Setting) (hf : ∀ item, item.setting ≠ setting → f item = none) :
    items.filterMap f = items'.filterMap f := by
  rw [← filterMap_filter_setting hf items, h setting, filterMap_filter_setting hf items']

theorem any_isJson_eq (items : List Item) :
    items.any Item.isJson = (items.filter (·.setting = .json)).any fun _ => true := by
  simp only [List.any_filter, Bool.and_true]
  rfl

theorem Reordered.ofItems_eq (h : Reordered items items') :
    Options.ofItems items = Options.ofItems items' := by
  have hinput := h.filterMap_eq .input fun _ => Item.input?_eq_none
  have hprocedure := h.filterMap_eq .procedure fun _ => Item.procedure?_eq_none
  have hbatchSize := h.filterMap_eq .batchSize fun _ => Item.batchSize?_eq_none
  have hjson : items.any Item.isJson = items'.any Item.isJson := by
    rw [any_isJson_eq, h .json, ← any_isJson_eq]
  rw [Options.ofItems, Options.ofItems, hinput, hprocedure, hbatchSize, hjson]

/-! ### One way to read -/

/-- What the next item is about, told by its first word alone. -/
def Setting.ofWord (word : String) : Setting :=
  if word = "--procedure" ∨ word = "-p" then .procedure
  else if word = "--batch" then .batchSize
  else if word = "--json" then .json
  else .input

namespace Item

theorem exists_words_eq (item : Item) :
    ∃ word more, item.words = word :: more ∧ item.setting = .ofWord word := by
  cases item with
  | json => exact ⟨_, _, rfl, rfl⟩
  | procedure option spelled p => exact ⟨_, _, rfl, (if_pos spelled).symm⟩
  | batchSize value size denotes fits => exact ⟨_, _, rfl, rfl⟩
  | input word bare =>
      obtain ⟨hprocedure, hbatch, hjson⟩ := ne_option_of_bare bare
      refine ⟨word, [], rfl, ?_⟩
      rw [Setting.ofWord, if_neg hprocedure, if_neg hbatch, if_neg hjson, setting]

theorem words_append_inj (h : item.words ++ rest = item'.words ++ rest') :
    item = item' ∧ rest = rest' := by
  have hsetting : item.setting = item'.setting := by
    obtain ⟨word, more, hwords, hitem⟩ := item.exists_words_eq
    obtain ⟨word', more', hwords', hitem'⟩ := item'.exists_words_eq
    rw [hwords, hwords', List.cons_append, List.cons_append] at h
    rw [hitem, hitem', (List.cons.inj h).1]
  cases item with
  | json =>
      cases item' with
      | json => exact ⟨rfl, (List.cons.inj h).2⟩
      | procedure | batchSize | input => cases hsetting
  | procedure option spelled p =>
      cases item' with
      | procedure option' spelled' p' =>
          obtain ⟨rfl, hmore⟩ := List.cons.inj h
          obtain ⟨hname, rfl⟩ := List.cons.inj hmore
          have hp := Procedure.ofName?_eq_some_iff.mpr hname
          rw [Procedure.ofName?_name] at hp
          obtain rfl := Option.some.inj hp
          exact ⟨rfl, rfl⟩
      | json | batchSize | input => cases hsetting
  | batchSize value size denotes fits =>
      cases item' with
      | batchSize value' size' denotes' fits' =>
          obtain ⟨-, hmore⟩ := List.cons.inj h
          obtain ⟨rfl, rfl⟩ := List.cons.inj hmore
          obtain rfl := Option.some.inj ((parseDecimal?_of_denotes denotes fits).symm.trans
            (parseDecimal?_of_denotes denotes' fits'))
          exact ⟨rfl, rfl⟩
      | json | procedure | input => cases hsetting
  | input word bare =>
      cases item' with
      | input word' bare' =>
          obtain ⟨rfl, rfl⟩ := List.cons.inj h
          exact ⟨rfl, rfl⟩
      | json | procedure | batchSize => cases hsetting

end Item

/-- Arguments are a row of items in one way at most. -/
theorem flatMap_words_injective : Function.Injective (List.flatMap Item.words) := by
  intro items items' h
  induction items generalizing items' with
  | nil =>
      cases items' with
      | nil => rfl
      | cons item' items' =>
          obtain ⟨word, more, hwords, -⟩ := item'.exists_words_eq
          rw [List.flatMap_cons, hwords] at h
          cases h
  | cons item items ih =>
      cases items' with
      | nil =>
          obtain ⟨word, more, hwords, -⟩ := item.exists_words_eq
          rw [List.flatMap_cons, hwords] at h
          cases h
      | cons item' items' =>
          rw [List.flatMap_cons, List.flatMap_cons] at h
          obtain ⟨rfl, hitems⟩ := Item.words_append_inj h
          rw [ih hitems]

/-! ### What is accepted -/

theorem ofArguments_eq_ok_iff : Options.ofArguments arguments = .ok options ↔
    ∃ items : List Item, items.flatMap Item.words = arguments ∧
      Options.ofItems items = .ok options := by
  constructor
  · intro h
    obtain ⟨p, hread, -⟩ := exists_of_bind_eq_ok h
    obtain ⟨items, rfl⟩ := exists_items_of_readArguments hread
    exact ⟨items, rfl, ofArguments_flatMap items ▸ h⟩
  · rintro ⟨items, rfl, h⟩
    rw [ofArguments_flatMap, h]

/-- **Arguments are accepted exactly if they are a row of items with one input among them.**  What
they ask for is that input, the last procedure, the last batch size, and the final state if it is
mentioned at all.  There is one such row at most, and the order in it makes no difference, except
among the items of one option. -/
theorem accepted_exactly :
    (∀ arguments options, Options.ofArguments arguments = .ok options ↔
      ∃ (items : List Item) (input : String), items.flatMap Item.words = arguments ∧
        items.filterMap Item.input? = [input] ∧
        options = ⟨input, (items.filterMap Item.procedure?).getLast?.getD .reduce,
          (items.filterMap Item.batchSize?).getLast?, items.any Item.isJson⟩) ∧
      (∀ items items' : List Item,
        items.flatMap Item.words = items'.flatMap Item.words → items = items') ∧
      ∀ items items' : List Item, Reordered items items' →
        Options.ofArguments (items.flatMap Item.words)
          = Options.ofArguments (items'.flatMap Item.words) := by
  refine ⟨fun arguments options => ?_, fun items items' h => flatMap_words_injective h,
    fun items items' h => ?_⟩
  · rw [ofArguments_eq_ok_iff]
    constructor
    · rintro ⟨items, harguments, h⟩
      obtain ⟨input, hinput, hoptions⟩ := ofItems_eq_ok_iff.mp h
      exact ⟨items, input, harguments, hinput, hoptions⟩
    · rintro ⟨items, input, harguments, hinput, hoptions⟩
      exact ⟨items, harguments, ofItems_eq_ok_iff.mpr ⟨input, hinput, hoptions⟩⟩
  · rw [ofArguments_flatMap, ofArguments_flatMap, h.ofItems_eq]

/-- Two procedures, of which the second counts, a batch size and an input. -/
def sampleItems : List Item :=
  [.procedure "-p" (.inr rfl) .removeLoops,
    .batchSize "+007" 7 ⟨['+'], ['0', '0', '7'], rfl, .inr rfl, by simp, by simp, rfl⟩ (by decide),
    .input "a.json" (by decide), .procedure "--procedure" (.inl rfl) .reduce]

theorem accepted_exactly_sample :
    Options.ofArguments
        ["-p", "remove-loops", "--batch", "+007", "a.json", "--procedure", "reduce"]
      = .ok ⟨"a.json", .reduce, some 7, false⟩ ∧
    Options.ofArguments
        ["a.json", "-p", "remove-loops", "--procedure", "reduce", "--batch", "+007"]
      = .ok ⟨"a.json", .reduce, some 7, false⟩ := by
  obtain ⟨haccepted, -, horder⟩ := accepted_exactly
  have hsample := (haccepted _ _).mpr ⟨sampleItems, "a.json", rfl, rfl, rfl⟩
  have hreordered : Reordered
      [sampleItems[2], sampleItems[0], sampleItems[3], sampleItems[1]] sampleItems := by
    intro setting
    cases setting <;> rfl
  exact ⟨hsample, (horder _ _ hreordered).trans hsample⟩

end CommandLine

end Chronicle
