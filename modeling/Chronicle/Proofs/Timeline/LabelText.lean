import Chronicle.Proofs.Text.Numeral
import Chronicle.Timeline.Basic
import Mathlib.Data.List.Basic
/-!
The texts of labels.

A label is kept as a path, but what is shown, looked up and counted on is its text: the places in
decimal, joined by dots.  No digit is a dot and no number is without digits, so the text tells the
path (`Label.text_injective`).

The text of the next label can be made from the text of a neighbour without the path: part it at
the last dot, read the number behind, add one, print it (`incremented`).  The number is read and
counted in a machine word, and what does not read as one counts as zero.  As long as a place fits
into the word this comes to the same as counting in the path (`Label.text_following`), whether or
not the number gets another digit.  `Timeline.derivedText` is the label of a node found that way.
-/

namespace Chronicle

/-! ### Numbers in decimal -/

theorem toList_toString (n : Nat) : (toString n).toList = Nat.toDigits 10 n := by
  rw [show toString n = n.repr from rfl, Nat.repr_eq_ofList_toDigits, String.toList_ofList]

theorem dot_not_mem_toString (n : Nat) : '.' ∉ (toString n).toList := by
  rw [toList_toString]
  intro hdot
  have hdigit := Nat.isDigit_of_mem_toDigits (by decide) (by decide) hdot
  simp [Char.isDigit] at hdigit

/-- A number is printed as a numeral that denotes it. -/
theorem Text.denotes_toString (n : Nat) : Denotes (toString n) n := by
  have hdigits : ∀ c ∈ Nat.toDigits 10 n, c.isDigit = true :=
    fun c hc => Nat.isDigit_of_mem_toDigits (by decide) (by decide) hc
  refine ⟨[], Nat.toDigits 10 n, toList_toString n, .inl rfl, Nat.toDigits_ne_nil, hdigits, ?_⟩
  rw [← ofDigits_eq, ofDigits, ← Nat.ofDigitChars_eq_foldl, Nat.ofDigitChars_ten_toDigits]

/-- A number that is printed reads as itself. -/
theorem Text.parseDecimal?_toString {n limit : Nat} (h : n ≤ limit) :
    parseDecimal? limit (toString n) = some n :=
  parseDecimal?_eq_some_iff.mpr ⟨denotes_toString n, h⟩

/-! ### Texts tell labels apart -/

namespace Label

theorem toList_text (l : Label) :
    l.text.toList = ['.'].intercalate (l.path.map fun place => (toString place).toList) := by
  rw [text, String.toList_intercalate, List.map_map]
  rfl

theorem text_eq_empty {l : Label} : l.text = "" ↔ l = .root := by
  obtain ⟨path⟩ := l
  cases path with
  | nil => simp [text, root]
  | cons place path =>
      simp only [root, mk.injEq, reduceCtorEq, iff_false]
      intro hempty
      have hlist := toList_text ⟨place :: path⟩
      rw [hempty] at hlist
      cases path <;> simp [Nat.toDigits_ne_nil] at hlist

/-- Parting the text at its dots gives the digits of each place back. -/
theorem splitOn_text {l : Label} (hl : l ≠ .root) :
    l.text.toList.splitOn '.' = l.path.map fun place => (toString place).toList := by
  rw [toList_text, List.splitOn_intercalate]
  · intro digits hdigits
    obtain ⟨place, -, rfl⟩ := List.mem_map.mp hdigits
    exact dot_not_mem_toString place
  · intro hnil
    obtain ⟨path⟩ := l
    exact hl (by simpa [root] using hnil)

/-- **Different labels have different texts.** -/
theorem text_injective : Function.Injective text := by
  intro l m htext
  by_cases hl : l = .root
  · rw [hl, text_eq_empty.mpr rfl] at htext
    exact hl.trans (text_eq_empty.mp htext.symm).symm
  · have hm : m ≠ .root := fun hc => hl (text_eq_empty.mp (htext.trans (text_eq_empty.mpr hc)))
    have hdigits := splitOn_text hl
    rw [htext, splitOn_text hm] at hdigits
    have hinjective : Function.Injective fun place : Nat => (toString place).toList := by
      intro place place' heq
      have hread := Text.parseDecimal?_toString (Nat.le_max_left place place')
      rw [String.toList_inj.mp heq, Text.parseDecimal?_toString (Nat.le_max_right place place'),
        Option.some.injEq] at hread
      exact hread.symm
    obtain ⟨path⟩ := l
    obtain ⟨path'⟩ := m
    exact congrArg mk (List.map_injective_iff.mpr hinjective hdigits.symm)

end Label

/-! ### The next text -/

/-- What stands before and behind the last dot. -/
def partAtLastDot : List Char → Option (List Char × List Char)
  | [] => none
  | c :: rest =>
    match partAtLastDot rest with
    | some (lead, last) => some (c :: lead, last)
    | none => if c = '.' then some ([], rest) else none

/-- The number that the text reads as, zero if it is none, and one more, in a machine word. -/
def countOn (text : String) : String :=
  toString (UInt64.ofNat ((Text.parseDecimal? (UInt64.size - 1) text).getD 0) + 1).toNat

/-- The text with the number behind its last dot counted on. -/
def incremented (text : String) : String :=
  match partAtLastDot text.toList with
  | some (lead, last) => String.ofList lead ++ "." ++ countOn (String.ofList last)
  | none => countOn text

/-- The text of the first label below. -/
def extended (text : String) : String := if text = "" then "1" else text ++ ".1"

theorem partAtLastDot_of_not_mem {text : List Char} (h : '.' ∉ text) :
    partAtLastDot text = none := by
  induction text with
  | nil => rfl
  | cons c rest ih =>
      rw [List.mem_cons, not_or] at h
      simp [partAtLastDot, ih h.2, Ne.symm h.1]

theorem partAtLastDot_append {last : List Char} (h : '.' ∉ last) (lead : List Char) :
    partAtLastDot (lead ++ '.' :: last) = some (lead, last) := by
  induction lead with
  | nil => simp [partAtLastDot, partAtLastDot_of_not_mem h]
  | cons c lead ih => simp [partAtLastDot, ih]

theorem countOn_toString {place : Nat} (h : place + 1 < UInt64.size) :
    countOn (toString place) = toString (place + 1) := by
  rw [countOn, Text.parseDecimal?_toString (by omega), Option.getD_some]
  congr 1
  rw [UInt64.toNat_add, UInt64.toNat_ofNat_of_lt' (by omega : place < UInt64.size)]
  exact Nat.mod_eq_of_lt h

namespace Label

theorem text_snoc {lead : List Nat} (hlead : lead ≠ []) (place : Nat) :
    text ⟨lead ++ [place]⟩ = text ⟨lead⟩ ++ "." ++ toString place := by
  apply String.toList_inj.mp
  rw [String.toList_append, String.toList_append, toList_text, toList_text]
  induction lead with
  | nil => exact absurd rfl hlead
  | cons first lead ih =>
      cases lead with
      | nil => simp
      | cons second lead =>
          have := ih (by simp)
          simp only [List.cons_append, List.map_cons, List.intercalate_cons_cons] at this ⊢
          rw [this]
          simp

/-- **Counting on in the text is counting on in the path.** -/
theorem text_following {lead : List Nat} {place : Nat} (h : place + 1 < UInt64.size) :
    (following ⟨lead ++ [place]⟩).text = incremented (text ⟨lead ++ [place]⟩) := by
  have hfollowing : following ⟨lead ++ [place]⟩ = ⟨lead ++ [place + 1]⟩ := by
    simp [following]
  rw [hfollowing]
  by_cases hlead : lead = []
  · subst hlead
    have hparts := partAtLastDot_of_not_mem (dot_not_mem_toString place)
    have htext : ∀ n : Nat, text ⟨[] ++ [n]⟩ = toString n := by simp [text]
    rw [htext, htext, incremented, hparts, countOn_toString h]
  · have hparts := partAtLastDot_append (dot_not_mem_toString place) (text ⟨lead⟩).toList
    rw [text_snoc hlead, text_snoc hlead, incremented]
    rw [show (text ⟨lead⟩ ++ "." ++ toString place).toList
      = (text ⟨lead⟩).toList ++ '.' :: (toString place).toList by simp, hparts]
    simp only [String.ofList_toList, countOn_toString h]

theorem text_below (l : Label) : l.below.text = extended l.text := by
  by_cases hl : l = .root
  · subst hl
    rfl
  · have hpath : l.path ≠ [] := fun hc => hl (congrArg mk hc)
    rw [extended, if_neg fun hc => hl (text_eq_empty.mp hc), below, text_snoc hpath,
      String.append_assoc]
    rfl

end Label

namespace Timeline

variable {P : Type}

/-- The label of a node, and no label for what is no node. -/
def labelOf (t : Timeline P) (id : NodeId) : Label := ((t.node? id).map (·.label)).getD .root

/-- The text of the label that the links of a node give it, from the texts of its neighbours. -/
def derivedText (t : Timeline P) (n : Node P) : String :=
  match n.prev, n.parent with
  | some prev, _ => incremented (t.labelOf prev).text
  | none, some parent => extended (t.labelOf parent).text
  | none, none => ""

end Timeline

end Chronicle
