import Chronicle.Json.Parser
import Chronicle.Json.Printer
import Mathlib.Data.List.DropRight
/-!
What is written is read back.

Reader and printers are tied together by the written forms of a value.  `Spells` says which
characters spell a value, with blanks wherever they may stand; it follows the grammar and knows
neither the reader's bound nor the layout of a printer.  Two inductions meet there: the reader
takes every written form off the front of the characters (`read_of_spells`), and both printers give
written forms (`spells_compact`, `spells_pretty`).

Only a value that is one all the way down has a written form: `Proper` keeps `illFormed` out.  And a
number must be followed by something that does not continue it, which is what `Stops` asks of the
rest.

Main statements: `Json.ofText?_compactText` and `Json.ofText?_prettyText`.
-/

namespace Chronicle.Json

/-! ### Texts -/

theorem unit?_zero_zero :
    ∀ n < 0x20, unit? '0' '0' (Nat.digitChar (n / 16)) (Nat.digitChar (n % 16)) = some n := by
  decide

theorem Piece.ofUnit_of_lt {n : Nat} (h : n < 0xD800) : ofUnit n = char (Char.ofNat n) := by
  have hhigh : ¬ 0xD800 ≤ n := by omega
  have hlow : ¬ 0xDC00 ≤ n := by omega
  simp [ofUnit, hhigh, hlow]

theorem Piece.join_map_char (cs : List Char) : join (cs.map char) = some cs := by
  induction cs with
  | nil => rfl
  | cons c cs ih => simp [join, ih]

/-- A character is written by a short escape, by its number, or as itself. -/
theorem escapedChar_cases (c : Char) :
    (∃ e, escape? e = some c ∧ escapedChar c = ['\\', e]) ∨
    (c.toNat < 0x20 ∧ escapedChar c =
      ['\\', 'u', '0', '0', Nat.digitChar (c.toNat / 16), Nat.digitChar (c.toNat % 16)]) ∨
    (c ≠ '"' ∧ c ≠ '\\' ∧ ¬ c.val < 0x20 ∧ escapedChar c = [c]) := by
  have hnat : c.val < 0x20 → c.toNat < 0x20 := UInt32.lt_iff_toNat_lt.mp
  unfold escapedChar
  repeat' split
  all_goals simp_all [escape?]

theorem readPieces_escape {e c : Char} (he : escape? e = some c) (rest : List Char) :
    readPieces ('\\' :: e :: rest) =
      (readPieces rest).map fun (pieces, rest) => (.char c :: pieces, rest) := by
  have hu : e ≠ 'u' := by
    rintro rfl
    cases he
  rw [readPieces.eq_def]
  cases hrest : readPieces rest <;> simp [he, hu, hrest]

/-- However a character is written inside a text, it is read as itself. -/
theorem readPieces_escapedChar (c : Char) (rest : List Char) :
    readPieces (escapedChar c ++ rest) =
      (readPieces rest).map fun (pieces, rest) => (.char c :: pieces, rest) := by
  obtain ⟨e, he, heq⟩ | ⟨hlt, heq⟩ | ⟨hquote, hback, hplain, heq⟩ := escapedChar_cases c
  · rw [heq]
    exact readPieces_escape he rest
  · have hpiece : Piece.ofUnit c.toNat = .char c := by
      rw [Piece.ofUnit_of_lt (by omega), Char.ofNat_toNat]
    cases hrest : readPieces rest <;>
      simp [heq, readPieces, unit?_zero_zero _ hlt, hpiece, hrest]
  · have hread : ¬ (c.val < 0x20 || c == '\\') = true := by simp [hplain, hback]
    rw [heq, List.singleton_append, readPieces, if_neg hread]
    · exact hquote
    all_goals
      intros
      contradiction

theorem readPieces_flatMap (cs rest : List Char) :
    readPieces (cs.flatMap escapedChar ++ '"' :: rest) = some (cs.map .char, rest) := by
  induction cs with
  | nil => rfl
  | cons c cs ih =>
      rw [List.flatMap_cons, List.append_assoc, readPieces_escapedChar, ih]
      rfl

/-- What stands behind the opening quote of a text is read as the text. -/
theorem readText_flatMap (s : String) (rest : List Char) :
    readText (s.toList.flatMap escapedChar ++ '"' :: rest) = some (some s, rest) := by
  simp [readText, readPieces_flatMap, Piece.join_map_char]

/-! ### Numbers -/

/-- Does nothing stand in front that continues digits? -/
def StopsDigits (cs : List Char) : Prop := ∀ c ∈ cs.head?, c.isDigit = false

/-- Does nothing stand in front that continues a number? -/
def Stops (cs : List Char) : Prop :=
  ∀ c ∈ cs.head?, c.isDigit = false ∧ c ≠ '.' ∧ c ≠ 'e' ∧ c ≠ 'E'

theorem Stops.stopsDigits {cs : List Char} (h : Stops cs) : StopsDigits cs := fun c hc => (h c hc).1

theorem isDigit_of_mem_toDigits {n : Nat} {c : Char} (h : c ∈ Nat.toDigits 10 n) :
    c.isDigit = true :=
  Nat.isDigit_of_mem_toDigits (by decide) (by decide) h

/-- The digits of a number begin with a zero only if it is zero. -/
theorem eq_zero_of_toDigits_eq_cons {n : Nat} {rest : List Char}
    (h : Nat.toDigits 10 n = '0' :: rest) : n = 0 := by
  induction n using Nat.strongRecOn generalizing rest with
  | ind n ih =>
      rw [Nat.toDigits_eq_if (by decide)] at h
      split at h
      · next hlt =>
        have hall : ∀ m < 10, Nat.digitChar m = '0' → m = 0 := by decide
        exact hall n hlt (List.cons.inj h).1
      · next hle =>
        obtain ⟨c, digits, hdigits⟩ := List.exists_cons_of_ne_nil
          (Nat.toDigits_ne_nil (n := n / 10) (b := 10))
        rw [hdigits, List.cons_append] at h
        rw [(List.cons.inj h).1] at hdigits
        have := ih (n / 10) (by omega) hdigits
        omega

theorem digitsValue_toDigits (n : Nat) : digitsValue (Nat.toDigits 10 n) = n := by
  rw [digitsValue, ← Nat.ofDigitChars_eq_foldl, Nat.ofDigitChars_ten_toDigits]

theorem readDigits_toDigits (n : Nat) {rest : List Char} (h : StopsDigits rest) :
    readDigits (Nat.toDigits 10 n ++ rest) = some (Nat.toDigits 10 n, rest) := by
  have htake : rest.takeWhile Char.isDigit = [] := by
    cases rest with
    | nil => rfl
    | cons c rest => simp [h c rfl]
  have hdrop : rest.dropWhile Char.isDigit = rest := by
    cases rest with
    | nil => rfl
    | cons c rest => simp [h c rfl]
  rw [readDigits, List.takeWhile_append_of_pos fun c => isDigit_of_mem_toDigits,
    List.dropWhile_append_of_pos fun c => isDigit_of_mem_toDigits, htake, hdrop]
  simp [Nat.toDigits_ne_nil]

theorem readWhole_toDigits (n : Nat) {rest : List Char} (h : StopsDigits rest) :
    readWhole (Nat.toDigits 10 n ++ rest) = some (Nat.toDigits 10 n, rest) := by
  obtain ⟨c, digits, hdigits⟩ := List.exists_cons_of_ne_nil
    (Nat.toDigits_ne_nil (n := n) (b := 10))
  by_cases hc : c = '0'
  · rw [hc] at hdigits
    have hzero := eq_zero_of_toDigits_eq_cons hdigits
    rw [hzero, Nat.toDigits_zero]
    rfl
  · rw [← readDigits_toDigits n h, hdigits]
    simp [readWhole, hc]

theorem readFraction_of_stops {rest : List Char} (h : ∀ c ∈ rest.head?, c ≠ '.') :
    readFraction rest = some ([], rest) := by
  cases rest with
  | nil => rfl
  | cons c rest => simp [readFraction, h c rfl]

section Exponent

attribute [local simp] readExponent

theorem readExponent_of_stops {rest : List Char} (h : Stops rest) :
    readExponent rest = some (none, rest) := by
  cases rest with
  | nil => rfl
  | cons c rest =>
      obtain ⟨-, -, he, hE⟩ := h c rfl
      simp [he, hE]

/-- Digits right behind the mark of an exponent are its digits. -/
theorem readExponent_of_isDigit {c : Char} (hc : c.isDigit = true) (cs : List Char) :
    readExponent ('e' :: c :: cs) = (readDigits (c :: cs)).map fun (digits, rest) =>
      (some (digitsValue digits : Int), rest) := by
  simp only [readExponent, beq_self_eq_true, Bool.true_or, if_true]
  split
  · next heq =>
    rw [(List.cons.inj heq).1] at hc
    cases hc
  · next heq =>
    rw [(List.cons.inj heq).1] at hc
    cases hc
  · rfl

/-- An exponent is written as its sign, if it has one, and the digits of its size. -/
theorem readExponent_toDigits (exponent : Int) {rest : List Char} (h : StopsDigits rest) :
    readExponent ('e' :: ((if exponent < 0 then ['-'] else []) ++
      (Nat.toDigits 10 exponent.natAbs ++ rest))) = some (some exponent, rest) := by
  have hread := readDigits_toDigits exponent.natAbs h
  by_cases hneg : exponent < 0
  · simp only [readExponent, hneg, if_true, List.cons_append, List.nil_append, hread]
    have hvalue : -(exponent.natAbs : Int) = exponent := by omega
    simpa [digitsValue_toDigits] using hvalue
  · obtain ⟨c, digits, hdigits⟩ := List.exists_cons_of_ne_nil
      (Nat.toDigits_ne_nil (n := exponent.natAbs) (b := 10))
    have hc : c.isDigit = true := isDigit_of_mem_toDigits (hdigits ▸ List.mem_cons_self)
    rw [if_neg hneg, List.nil_append, hdigits, List.cons_append, readExponent_of_isDigit hc,
      ← List.cons_append, ← hdigits, hread]
    simp only [Option.map_some, digitsValue_toDigits, Option.some.injEq, Prod.mk.injEq, and_true]
    omega

end Exponent

theorem readMagnitude_integer (negative : Bool) (n : Nat) {rest : List Char} (h : Stops rest) :
    readMagnitude negative (Nat.toDigits 10 n ++ rest) =
      some (number (.integer negative n), rest) := by
  simp [readMagnitude, readWhole_toDigits n h.stopsDigits,
    readFraction_of_stops fun c hc => (h c hc).2.1, readExponent_of_stops h, digitsValue_toDigits]

theorem readMagnitude_decimal (negative : Bool) (mantissa : Nat) (exponent : Int)
    {rest : List Char} (h : Stops rest) :
    readMagnitude negative (Nat.toDigits 10 mantissa ++ ('e' ::
      ((if exponent < 0 then ['-'] else []) ++ (Nat.toDigits 10 exponent.natAbs ++ rest)))) =
      some (number (.decimal negative mantissa exponent), rest) := by
  have hwhole : readWhole (Nat.toDigits 10 mantissa ++ ('e' ::
      ((if exponent < 0 then ['-'] else []) ++ (Nat.toDigits 10 exponent.natAbs ++ rest)))) = _ :=
    readWhole_toDigits mantissa (by simp [StopsDigits])
  simp [readMagnitude, hwhole, readFraction, readExponent_toDigits exponent h.stopsDigits,
    digitsValue_toDigits]

/-! ### Written forms -/

/-- Nothing but blanks. -/
def Blanks (cs : List Char) : Prop := ∀ c ∈ cs, c ∈ [' ', '\n', '\t', '\r']

theorem blanks_nil : Blanks [] := by simp [Blanks]

theorem blanks_blank : Blanks [' '] := by simp [Blanks]

theorem blanks_newLine (depth : Nat) : Blanks (newLine depth) := by
  simp +contextual [Blanks, newLine]

theorem skipBlanks_append {blanks : List Char} (h : Blanks blanks) (cs : List Char) :
    skipBlanks (blanks ++ cs) = skipBlanks cs := by
  refine List.dropWhile_append_of_pos fun c hc => ?_
  have hmem := h c hc
  simpa [or_assoc] using hmem

theorem skipBlanks_skipBlanks (cs : List Char) : skipBlanks (skipBlanks cs) = skipBlanks cs :=
  List.dropWhile_idempotent _ _

/-- Blanks are skipped up to what is none. -/
theorem skipBlanks_append_cons {blanks : List Char} (h : Blanks blanks) {c : Char}
    (hc : c ∉ [' ', '\n', '\t', '\r']) (cs : List Char) :
    skipBlanks (blanks ++ c :: cs) = c :: cs := by
  rw [skipBlanks_append h]
  simp_all [skipBlanks]

theorem skipBlanks_cons {c : Char} (hc : c ∉ [' ', '\n', '\t', '\r']) (cs : List Char) :
    skipBlanks (c :: cs) = c :: cs :=
  skipBlanks_append_cons blanks_nil hc cs

/-- What characters may spell: a value, or what stands behind the opening bracket of an array or of
an object that is not empty. -/
inductive Part
  | value (value : Json)
  | items (items : List Json)
  | members (members : List (String × Json))

/-- The value that is read. -/
@[simp]
def Part.meaning : Part → Json
  | .value v => v
  | .items l => array l
  | .members l => object l

/-- The reader in charge. -/
@[simp]
def Part.read : Part → Nat → List Char → Option (Json × List Char)
  | .value _ => readValue
  | .items _ => readItems
  | .members _ => readMembers

/-- The characters spell the part, with blanks only where the grammar of JSON lets them stand. -/
inductive Spells : Part → List Char → Prop
  | null : Spells (.value .null) nullText
  | bool (b : Bool) : Spells (.value (.bool b)) (boolText b)
  | number (n : Number) : Spells (.value (.number n)) n.chars
  | string (s : String) : Spells (.value (.string s)) (quotedText s)
  | emptyArray : Spells (.value (.array [])) ['[', ']']
  | emptyObject : Spells (.value (.object [])) ['\x7b', '\x7d']
  | array {items : List Json} {cs : List Char} (spelled : Spells (.items items) cs) :
      Spells (.value (.array items)) ('[' :: cs)
  | object {members : List (String × Json)} {cs : List Char}
      (spelled : Spells (.members members) cs) :
      Spells (.value (.object members)) ('\x7b' :: cs)
  | blanks {value : Json} {blanks cs : List Char} (blank : Blanks blanks)
      (spelled : Spells (.value value) cs) : Spells (.value value) (blanks ++ cs)
  | lastItem {item : Json} {cs blanks : List Char} (spelled : Spells (.value item) cs)
      (blank : Blanks blanks) : Spells (.items [item]) (cs ++ (blanks ++ [']']))
  | item {item : Json} {items : List Json} {cs cs' : List Char}
      (spelled : Spells (.value item) cs) (further : Spells (.items items) cs') :
      Spells (.items (item :: items)) (cs ++ ',' :: cs')
  | lastMember {key : String} {value : Json} {before cs blanks : List Char}
      (blankBefore : Blanks before) (spelled : Spells (.value value) cs) (blank : Blanks blanks) :
      Spells (.members [(key, value)])
        (before ++ (quotedText key ++ ':' :: (cs ++ (blanks ++ ['\x7d']))))
  | member {key : String} {value : Json} {members : List (String × Json)}
      {before cs cs' : List Char} (blankBefore : Blanks before)
      (spelled : Spells (.value value) cs) (further : Spells (.members members) cs') :
      Spells (.members ((key, value) :: members))
        (before ++ (quotedText key ++ ':' :: (cs ++ ',' :: cs')))

/-! ### The reader takes every written form -/

section Readers

attribute [local simp] readValue readItems readMembers

theorem readValue_skipBlanks (bound : Nat) (cs : List Char) :
    readValue bound (skipBlanks cs) = readValue bound cs := by
  cases bound with
  | zero => simp only [readValue]
  | succ bound => simp only [readValue, skipBlanks_skipBlanks]

theorem readItems_skipBlanks (bound : Nat) (cs : List Char) :
    readItems bound (skipBlanks cs) = readItems bound cs := by
  cases bound with
  | zero => simp only [readItems]
  | succ bound => simp only [readItems, readValue_skipBlanks]

theorem readMembers_skipBlanks (bound : Nat) (cs : List Char) :
    readMembers bound (skipBlanks cs) = readMembers bound cs := by
  cases bound with
  | zero => simp only [readMembers]
  | succ bound => simp only [readMembers, skipBlanks_skipBlanks]

/-- No item begins with the bracket that closes an array. -/
theorem readItems_bracket {bound : Nat} {cs rest : List Char} (h : skipBlanks cs = ']' :: rest) :
    readItems bound cs = none := by
  cases bound with
  | zero => simp only [readItems]
  | succ bound =>
    cases bound with
    | zero => simp
    | succ bound => simp [h, readMagnitude, readWhole, readDigits]

/-- No member begins with the brace that closes an object. -/
theorem readMembers_brace {bound : Nat} {cs rest : List Char} (h : skipBlanks cs = '\x7d' :: rest) :
    readMembers bound cs = none := by
  cases bound with
  | zero => simp only [readMembers]
  | succ bound => simp [h]

theorem readValue_array {bound : Nat} {cs : List Char} {result : Json × List Char}
    (h : readItems bound cs = some result) : readValue (bound + 1) ('[' :: cs) = some result := by
  simp only [readValue, skipBlanks_cons (c := '[') (by decide)]
  split
  · next heq =>
    rw [readItems_bracket heq] at h
    cases h
  · rw [readItems_skipBlanks, h]

theorem readValue_object {bound : Nat} {cs : List Char} {result : Json × List Char}
    (h : readMembers bound cs = some result) :
    readValue (bound + 1) ('\x7b' :: cs) = some result := by
  simp only [readValue, skipBlanks_cons (c := '\x7b') (by decide)]
  split
  · next heq =>
    rw [readMembers_brace heq] at h
    cases h
  · rw [readMembers_skipBlanks, h]

theorem readItems_last {bound : Nat} {cs blanks rest : List Char} {item : Json}
    (hblanks : Blanks blanks) (h : readValue bound cs = some (item, blanks ++ ']' :: rest)) :
    readItems (bound + 1) cs = some (array [item], rest) := by
  simp [h, skipBlanks_append_cons hblanks]

theorem readItems_further {bound : Nat} {cs cs' rest : List Char} {item : Json} {items : List Json}
    (h : readValue bound cs = some (item, ',' :: cs'))
    (h' : readItems bound cs' = some (array items, rest)) :
    readItems (bound + 1) cs = some (array (item :: items), rest) := by
  simp [h, h', skipBlanks_cons, withItem]

theorem readMembers_last {bound : Nat} {before cs blanks rest : List Char} {key : String}
    {value : Json} (hbefore : Blanks before) (hblanks : Blanks blanks)
    (h : readValue bound cs = some (value, blanks ++ '\x7d' :: rest)) :
    readMembers (bound + 1) (before ++ (quotedText key ++ ':' :: cs)) =
      some (object [(key, value)], rest) := by
  simp [quotedText, skipBlanks_append_cons hbefore, readText_flatMap, skipBlanks_cons,
    h, skipBlanks_append_cons hblanks, withMember]

theorem readMembers_further {bound : Nat} {before cs cs' rest : List Char} {key : String}
    {value : Json} {members : List (String × Json)} (hbefore : Blanks before)
    (h : readValue bound cs = some (value, ',' :: cs'))
    (h' : readMembers bound cs' = some (object members, rest)) :
    readMembers (bound + 1) (before ++ (quotedText key ++ ':' :: cs)) =
      some (object ((key, value) :: members), rest) := by
  simp [quotedText, skipBlanks_append_cons hbefore, readText_flatMap, skipBlanks_cons,
    h, h', withMember]

theorem readValue_of_isDigit {c : Char} (hc : c.isDigit = true) (bound : Nat) (cs : List Char) :
    readValue (bound + 1) (c :: cs) = readMagnitude false (c :: cs) := by
  have hblank : c ∉ [' ', '\n', '\t', '\r'] := by
    intro hmem
    simp only [List.mem_cons, List.not_mem_nil, or_false] at hmem
    rcases hmem with rfl | rfl | rfl | rfl <;> cases hc
  simp only [readValue, skipBlanks_cons hblank]
  split
  case h_8 => rfl
  all_goals
    next heq =>
    rw [(List.cons.inj heq).1] at hc
    cases hc

theorem Number.chars_ne_nil (n : Number) : n.chars ≠ [] := by
  cases n <;> simp [chars, Nat.toDigits_ne_nil]

theorem readValue_number (n : Number) (bound : Nat) {rest : List Char} (h : Stops rest) :
    readValue (bound + 1) (n.chars ++ rest) = some (number n, rest) := by
  -- Behind a minus sign, or in front of everything, there is a digit.
  have hsign : ∀ (negative : Bool) (m : Nat) (cs : List Char),
      readValue (bound + 1) ((if negative then ['-'] else []) ++ (Nat.toDigits 10 m ++ cs)) =
        readMagnitude negative (Nat.toDigits 10 m ++ cs) := by
    intro negative m cs
    cases negative with
    | true => simp [skipBlanks]
    | false =>
      obtain ⟨c, digits, hdigits⟩ := List.exists_cons_of_ne_nil
        (Nat.toDigits_ne_nil (n := m) (b := 10))
      have hc : c.isDigit = true := isDigit_of_mem_toDigits (hdigits ▸ List.mem_cons_self)
      rw [hdigits]
      exact readValue_of_isDigit hc bound _
  cases n with
  | integer negative magnitude =>
    rw [Number.chars, List.append_assoc, hsign, readMagnitude_integer negative magnitude h]
  | decimal negative mantissa exponent =>
    simp only [Number.chars, List.append_assoc, List.cons_append]
    rw [hsign, readMagnitude_decimal negative mantissa exponent h]

/-- Neither blanks nor what ends an item or a member continues a number. -/
theorem stops_of_head {cs : List Char}
    (h : ∀ c ∈ cs.head?, c ∈ [' ', '\n', '\t', '\r'] ++ [',', ']', '\x7d']) : Stops cs := by
  have hstop : ∀ d ∈ [' ', '\n', '\t', '\r'] ++ [',', ']', '\x7d'],
      d.isDigit = false ∧ d ≠ '.' ∧ d ≠ 'e' ∧ d ≠ 'E' := by
    simp only [List.cons_append, List.nil_append, List.forall_mem_cons, List.not_mem_nil,
      false_implies, implies_true, and_true]
    decide
  exact fun d hd => hstop d (h d hd)

theorem Blanks.stops {blanks : List Char} (h : Blanks blanks) : Stops blanks :=
  stops_of_head fun c hc => List.mem_append_left _ (h c (List.mem_of_mem_head? hc))

theorem stops_append {blanks : List Char} (hblanks : Blanks blanks) {c : Char}
    (hc : c ∈ [',', ']', '\x7d']) (rest : List Char) : Stops (blanks ++ c :: rest) := by
  refine stops_of_head fun d hd => ?_
  cases blanks with
  | nil =>
    cases hd
    exact List.mem_append_right _ hc
  | cons b blanks =>
    cases hd
    exact List.mem_append_left _ (hblanks _ List.mem_cons_self)

theorem stops_cons {c : Char} (hc : c ∈ [',', ']', '\x7d']) (rest : List Char) :
    Stops (c :: rest) :=
  stops_append blanks_nil hc rest

/-- **The reader takes a written form off the front**, if its bound is twice the length. -/
theorem read_of_spells {part : Part} {cs : List Char} (h : Spells part cs) :
    ∀ {bound : Nat} {rest : List Char}, 2 * cs.length ≤ bound → Stops rest →
      part.read bound (cs ++ rest) = some (part.meaning, rest) := by
  induction h with
  | null =>
      intro bound rest hbound hrest
      rcases bound with _ | bound
      · cases hbound
      simp [nullText, skipBlanks_cons]
  | bool b =>
      intro bound rest hbound hrest
      rcases bound with _ | bound
      · cases b <;> cases hbound
      cases b <;> simp [boolText, skipBlanks_cons]
  | number n =>
      intro bound rest hbound hrest
      rcases bound with _ | bound
      · exact absurd (List.length_eq_zero_iff.mp (by omega)) n.chars_ne_nil
      exact readValue_number n bound hrest
  | string s =>
      intro bound rest hbound hrest
      rcases bound with _ | bound
      · simp [quotedText] at hbound
      simp [quotedText, skipBlanks_cons, readText_flatMap]
  | emptyArray =>
      intro bound rest hbound hrest
      rcases bound with _ | bound
      · cases hbound
      simp [skipBlanks_cons]
  | emptyObject =>
      intro bound rest hbound hrest
      rcases bound with _ | bound
      · cases hbound
      simp [skipBlanks_cons]
  | array spelled ih =>
      intro bound rest hbound hrest
      rcases bound with _ | bound
      · cases hbound
      rw [List.length_cons] at hbound
      exact readValue_array (ih (by omega) hrest)
  | object spelled ih =>
      intro bound rest hbound hrest
      rcases bound with _ | bound
      · cases hbound
      rw [List.length_cons] at hbound
      exact readValue_object (ih (by omega) hrest)
  | blanks blank spelled ih =>
      intro bound rest hbound hrest
      rw [List.length_append] at hbound
      rw [Part.read, ← readValue_skipBlanks, List.append_assoc, skipBlanks_append blank,
        readValue_skipBlanks]
      exact ih (by omega) hrest
  | lastItem spelled blank ih =>
      intro bound rest hbound hrest
      rcases bound with _ | bound
      · simp at hbound
      simp only [List.length_append, List.length_cons, List.length_nil] at hbound
      simp only [List.append_assoc, List.cons_append, List.nil_append]
      exact readItems_last blank (ih (by omega) (stops_append blank (by decide) rest))
  | @item item items cs cs' spelled further ih ihFurther =>
      intro bound rest hbound hrest
      rcases bound with _ | bound
      · simp at hbound
      simp only [List.length_append, List.length_cons] at hbound
      simp only [List.append_assoc, List.cons_append]
      exact readItems_further (ih (by omega) (stops_cons (by decide) _))
        (ihFurther (by omega) hrest)
  | lastMember blankBefore spelled blank ih =>
      intro bound rest hbound hrest
      rcases bound with _ | bound
      · simp at hbound
      simp only [List.length_append, List.length_cons, List.length_nil] at hbound
      simp only [List.append_assoc, List.cons_append, List.nil_append]
      exact readMembers_last blankBefore blank (ih (by omega) (stops_append blank (by decide) rest))
  | member blankBefore spelled further ih ihFurther =>
      intro bound rest hbound hrest
      rcases bound with _ | bound
      · simp at hbound
      simp only [List.length_append, List.length_cons] at hbound
      simp only [List.append_assoc, List.cons_append]
      exact readMembers_further blankBefore (ih (by omega) (stops_cons (by decide) _))
        (ihFurther (by omega) hrest)

/-- A text that spells a value, with blanks behind it, means this value. -/
theorem ofText?_append_of_spells {v : Json} {cs blanks : List Char} (h : Spells (.value v) cs)
    (hblanks : Blanks blanks) : ofText? (String.ofList (cs ++ blanks)) = some v := by
  have hbound : 2 * cs.length ≤ 2 * (cs ++ blanks).length + 1 := by
    rw [List.length_append]
    omega
  have hread := read_of_spells h hbound hblanks.stops
  simp only [Part.read, Part.meaning] at hread
  have hskip : skipBlanks blanks = [] := by simpa [skipBlanks] using skipBlanks_append hblanks []
  simp only [ofText?, String.toList_ofList, hread, Option.bind_eq_bind, Option.bind_some, hskip,
    List.isEmpty_nil, if_true]
  rfl

theorem ofText?_of_spells {v : Json} {cs : List Char} (h : Spells (.value v) cs) :
    ofText? (String.ofList cs) = some v := by
  simpa using ofText?_append_of_spells h blanks_nil

end Readers

/-! ### Printers give written forms -/

/-- A value that is one all the way down. -/
inductive Proper : Json → Prop
  | null : Proper null
  | bool (b : Bool) : Proper (bool b)
  | number (n : Number) : Proper (number n)
  | string (s : String) : Proper (string s)
  | array {items : List Json} (proper : ∀ item ∈ items, Proper item) : Proper (array items)
  | object {members : List (String × Json)} (proper : ∀ member ∈ members, Proper member.2) :
      Proper (object members)

theorem spells_compactItems {items : List Json}
    (h : ∀ item ∈ items, Spells (.value item) (compact item)) :
    ∀ {item : Json} {cs : List Char}, Spells (.value item) cs →
      Spells (.items (item :: items)) (cs ++ compactItems items) := by
  induction items with
  | nil => exact fun hitem => .lastItem hitem blanks_nil
  | cons next items ih =>
      intro item cs hitem
      exact .item hitem (ih (fun i hi => h i (List.mem_cons_of_mem _ hi))
        (h next List.mem_cons_self))

theorem spells_compactMembers {members : List (String × Json)}
    (h : ∀ member ∈ members, Spells (.value member.2) (compact member.2)) :
    ∀ {key : String} {value : Json} {cs : List Char}, Spells (.value value) cs →
      Spells (.members ((key, value) :: members))
        (quotedText key ++ ':' :: (cs ++ compactMembers members)) := by
  induction members with
  | nil => exact fun hvalue => .lastMember blanks_nil hvalue blanks_nil
  | cons next members ih =>
      intro key value cs hvalue
      simp only [compactMembers, List.append_assoc, List.cons_append]
      exact .member blanks_nil hvalue (ih (fun m hm => h m (List.mem_cons_of_mem _ hm))
        (h next List.mem_cons_self))

theorem spells_compact {v : Json} (h : Proper v) : Spells (.value v) (compact v) := by
  induction h with
  | null => rw [compact]; exact .null
  | bool b => rw [compact]; exact .bool b
  | number n => rw [compact]; exact .number n
  | string s => rw [compact]; exact .string s
  | @array items proper ih =>
      cases items with
      | nil => rw [compact]; exact .emptyArray
      | cons item items =>
        rw [compact]
        exact .array (spells_compactItems (fun i hi => ih i (List.mem_cons_of_mem _ hi))
          (ih item List.mem_cons_self))
  | @object members proper ih =>
      cases members with
      | nil => rw [compact]; exact .emptyObject
      | cons member members =>
        simp only [compact, List.append_assoc, List.cons_append]
        exact .object (spells_compactMembers (fun m hm => ih m (List.mem_cons_of_mem _ hm))
          (ih member List.mem_cons_self))

theorem spells_prettyItems {depth : Nat} {items : List Json}
    (h : ∀ item ∈ items, Spells (.value item) (pretty (depth + 1) item)) :
    ∀ {item : Json} {cs : List Char}, Spells (.value item) cs →
      Spells (.items (item :: items)) (cs ++ prettyItems depth items) := by
  induction items with
  | nil =>
      intro item cs hitem
      rw [prettyItems]
      exact .lastItem hitem (blanks_newLine depth)
  | cons next items ih =>
      intro item cs hitem
      simp only [prettyItems, List.append_assoc, List.cons_append]
      rw [← List.append_assoc (newLine (depth + 1))]
      exact .item hitem (ih (fun i hi => h i (List.mem_cons_of_mem _ hi))
        (.blanks (blanks_newLine _) (h next List.mem_cons_self)))

theorem spells_prettyMembers {depth : Nat} {members : List (String × Json)}
    (h : ∀ member ∈ members, Spells (.value member.2) (pretty (depth + 1) member.2)) :
    ∀ {key : String} {value : Json} {before cs : List Char}, Blanks before →
      Spells (.value value) cs → Spells (.members ((key, value) :: members))
        (before ++ (quotedText key ++ ':' :: (cs ++ prettyMembers depth members))) := by
  induction members with
  | nil =>
      intro key value before cs hbefore hvalue
      rw [prettyMembers]
      exact .lastMember hbefore hvalue (blanks_newLine depth)
  | cons next members ih =>
      intro key value before cs hbefore hvalue
      simp only [prettyMembers, List.append_assoc, List.cons_append]
      exact .member hbefore hvalue (ih (fun m hm => h m (List.mem_cons_of_mem _ hm))
        (blanks_newLine (depth + 1)) (.blanks blanks_blank (h next List.mem_cons_self)))

theorem spells_pretty {v : Json} (h : Proper v) :
    ∀ depth : Nat, Spells (.value v) (pretty depth v) := by
  induction h with
  | null => intro depth; rw [pretty]; exact .null
  | bool b => intro depth; rw [pretty]; exact .bool b
  | number n => intro depth; rw [pretty]; exact .number n
  | string s => intro depth; rw [pretty]; exact .string s
  | @array items proper ih =>
      intro depth
      cases items with
      | nil => rw [pretty]; exact .emptyArray
      | cons item items =>
        rw [pretty]
        exact .array (spells_prettyItems (fun i hi => ih i (List.mem_cons_of_mem _ hi) _)
          (.blanks (blanks_newLine _) (ih item List.mem_cons_self _)))
  | @object members proper ih =>
      intro depth
      cases members with
      | nil => rw [pretty]; exact .emptyObject
      | cons member members =>
        simp only [pretty, List.append_assoc, List.cons_append]
        exact .object (spells_prettyMembers (fun m hm => ih m (List.mem_cons_of_mem _ hm) _)
          (blanks_newLine _) (.blanks blanks_blank (ih member List.mem_cons_self _)))

/-- **What is written on one line is read back.** -/
theorem ofText?_compactText {v : Json} (h : Proper v) : ofText? (compactText v) = some v :=
  ofText?_of_spells (spells_compact h)

/-- **What is written over several lines is read back.** -/
theorem ofText?_prettyText {v : Json} (h : Proper v) : ofText? (prettyText v) = some v :=
  ofText?_of_spells (spells_pretty h 0)

/-- The same with the end of a line behind it. -/
theorem ofText?_prettyText_append {v : Json} (h : Proper v) :
    ofText? (prettyText v ++ "\n") = some v := by
  have hline : prettyText v ++ "\n" = String.ofList (pretty 0 v ++ ['\n']) := by
    rw [prettyText, String.ofList_append]
  rw [hline]
  exact ofText?_append_of_spells (spells_pretty h 0) (by simp [Blanks])

end Chronicle.Json
