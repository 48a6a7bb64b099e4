/-!
Blank characters and the fields between them.

A character is blank when Unicode gives it the property White_Space; that set is fixed and
small, so it is written out.  `fields` cuts a text at its blanks and keeps what is not empty.
The lemmas pin it down: every field is non-empty and free of blanks, and cutting a list of such
fields that was joined by single blanks gives the list back.
-/

namespace Chronicle.Text

/-- The characters with the Unicode property White_Space. -/
def isBlank (c : Char) : Bool :=
  (0x09 ≤ c.val && c.val ≤ 0x0D) || c.val == 0x20 || c.val == 0x85 || c.val == 0xA0 ||
    c.val == 0x1680 || (0x2000 ≤ c.val && c.val ≤ 0x200A) || c.val == 0x2028 ||
    c.val == 0x2029 || c.val == 0x202F || c.val == 0x205F || c.val == 0x3000

/-- The pieces between blanks, empty ones included: one more than there are blanks. -/
def pieces : List Char → List (List Char)
  | [] => [[]]
  | c :: cs =>
    if isBlank c then [] :: pieces cs
    else match pieces cs with
      | [] => [[c]]
      | piece :: rest => (c :: piece) :: rest

/-- The non-empty pieces between blanks. -/
def fields (cs : List Char) : List (List Char) :=
  (pieces cs).filter fun piece => !piece.isEmpty

/-- The fields of a text, as texts. -/
def words (text : String) : List String :=
  (fields text.toList).map String.ofList

attribute [local simp] pieces

theorem pieces_ne_nil (cs : List Char) : pieces cs ≠ [] := by
  cases cs with
  | nil => simp
  | cons c cs =>
    simp only [pieces]
    split
    · simp
    · split <;> simp

/-- No piece holds a blank. -/
theorem not_isBlank_of_mem_pieces {cs : List Char} :
    ∀ piece ∈ pieces cs, ∀ c ∈ piece, isBlank c = false := by
  induction cs with
  | nil => simp
  | cons c cs ih =>
    intro piece hpiece d hd
    simp only [pieces] at hpiece
    split at hpiece
    · rcases List.mem_cons.1 hpiece with rfl | h
      · simp at hd
      · exact ih piece h d hd
    · next hc =>
      have hc : isBlank c = false := by simpa using hc
      split at hpiece
      · next h => exact absurd h (pieces_ne_nil cs)
      · next first rest h =>
        rw [h] at ih
        rcases List.mem_cons.1 hpiece with rfl | hr
        · rcases List.mem_cons.1 hd with rfl | hd
          · exact hc
          · exact ih first (by simp) d hd
        · exact ih piece (by simp [hr]) d hd

/-- A field is not empty and holds no blank. -/
theorem of_mem_fields {cs field : List Char} (h : field ∈ fields cs) :
    field ≠ [] ∧ ∀ c ∈ field, isBlank c = false := by
  have h := List.mem_filter.1 h
  refine ⟨?_, not_isBlank_of_mem_pieces field h.1⟩
  intro hnil
  simp [hnil] at h

/-- A blank separates the pieces on its two sides. -/
theorem pieces_append_blank {c : Char} (hc : isBlank c = true) (cs ds : List Char) :
    pieces (cs ++ c :: ds) = pieces cs ++ pieces ds := by
  induction cs with
  | nil => simp [hc]
  | cons d cs ih =>
    by_cases hd : isBlank d = true
    · simp [hd, ih]
    · obtain ⟨piece, rest, h⟩ := List.exists_cons_of_ne_nil (pieces_ne_nil cs)
      simp [hd, ih, h]

/-- A text without blanks is a piece of its own. -/
theorem pieces_eq_singleton {cs : List Char} (h : ∀ c ∈ cs, isBlank c = false) :
    pieces cs = [cs] := by
  induction cs with
  | nil => rfl
  | cons c cs ih =>
    have hc : isBlank c = false := h c List.mem_cons_self
    simp [hc, ih fun d hd => h d (List.mem_cons_of_mem _ hd)]

/-- Fields that were joined by single blanks come back. -/
theorem fields_intercalate {list : List (List Char)}
    (h : ∀ field ∈ list, field ≠ [] ∧ ∀ c ∈ field, isBlank c = false) :
    fields ([' '].intercalate list) = list := by
  induction list with
  | nil => simp [fields]
  | cons first rest ih =>
    have hfirst := h first List.mem_cons_self
    have ih := ih fun field hf => h field (List.mem_cons_of_mem _ hf)
    have hpiece := pieces_eq_singleton hfirst.2
    cases rest with
    | nil => simp [fields, hpiece, hfirst.1]
    | cons second rest =>
      rw [List.intercalate_cons_cons, List.append_assoc, List.singleton_append, fields,
        pieces_append_blank (by decide), List.filter_append, hpiece, ← fields, ih]
      simp [hfirst.1]

end Chronicle.Text
