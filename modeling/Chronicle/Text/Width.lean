import Chronicle.Text.Cluster
/-!
How many columns a text takes where every column is as wide as a Latin letter.

Marks that are put on another character take none, ideographs, Korean syllables and most pictures
take two, and all else takes one.  Line feeds take none, with a carriage return in front of them or
without; the other control characters take one.  The width of a text is the sum of those of its
characters, except that several characters may make one picture of two columns, and that a linked
consonant may be put below the one before it.
-/

namespace Chronicle.Text

/-- Characters of two columns, where they are not put on another. -/
def wideRanges : Ranges :=
   [(0x1100, 0x115F), (0x17A4, 0x17A4), (0x231A, 0x231B), (0x2329, 0x232A), (0x23E9, 0x23EC),
    (0x23F0, 0x23F0), (0x23F3, 0x23F3), (0x25FD, 0x25FE), (0x2614, 0x2615), (0x2630, 0x2637),
    (0x2648, 0x2653), (0x267F, 0x267F), (0x268A, 0x268F), (0x2693, 0x2693), (0x26A1, 0x26A1),
    (0x26AA, 0x26AB), (0x26BD, 0x26BE), (0x26C4, 0x26C5), (0x26CE, 0x26CE), (0x26D4, 0x26D4),
    (0x26EA, 0x26EA), (0x26F2, 0x26F3), (0x26F5, 0x26F5), (0x26FA, 0x26FA), (0x26FD, 0x26FD),
    (0x2705, 0x2705), (0x270A, 0x270B), (0x2728, 0x2728), (0x274C, 0x274C), (0x274E, 0x274E),
    (0x2753, 0x2755), (0x2757, 0x2757), (0x2795, 0x2797), (0x27B0, 0x27B0), (0x27BF, 0x27BF),
    (0x2B1B, 0x2B1C), (0x2B50, 0x2B50), (0x2B55, 0x2B55), (0x2E80, 0x2E99), (0x2E9B, 0x2EF3),
    (0x2F00, 0x2FD5), (0x2FF0, 0x303E), (0x3041, 0x3096), (0x3099, 0x30FF), (0x3105, 0x312F),
    (0x3131, 0x318E), (0x3190, 0x31E5), (0x31EF, 0x321E), (0x3220, 0x3247), (0x3250, 0xA48C),
    (0xA490, 0xA4C6), (0xA960, 0xA97C), (0xAC00, 0xD7A3), (0xF900, 0xFAFF), (0xFE10, 0xFE19),
    (0xFE30, 0xFE52), (0xFE54, 0xFE66), (0xFE68, 0xFE6B), (0xFF01, 0xFF60), (0xFFE0, 0xFFE6),
    (0x16FE0, 0x16FE4), (0x16FF0, 0x16FF1), (0x17000, 0x187F7), (0x18800, 0x18CD5),
    (0x18CFF, 0x18D08), (0x1AFF0, 0x1AFF3), (0x1AFF5, 0x1AFFB), (0x1AFFD, 0x1AFFE),
    (0x1B000, 0x1B122), (0x1B132, 0x1B132), (0x1B150, 0x1B152), (0x1B155, 0x1B155),
    (0x1B164, 0x1B167), (0x1B170, 0x1B2FB), (0x1D300, 0x1D356), (0x1D360, 0x1D376),
    (0x1F004, 0x1F004), (0x1F0CF, 0x1F0CF), (0x1F18E, 0x1F18E), (0x1F191, 0x1F19A),
    (0x1F200, 0x1F202), (0x1F210, 0x1F23B), (0x1F240, 0x1F248), (0x1F250, 0x1F251),
    (0x1F260, 0x1F265), (0x1F300, 0x1F320), (0x1F32D, 0x1F335), (0x1F337, 0x1F37C),
    (0x1F37E, 0x1F393), (0x1F3A0, 0x1F3CA), (0x1F3CF, 0x1F3D3), (0x1F3E0, 0x1F3F0),
    (0x1F3F4, 0x1F3F4), (0x1F3F8, 0x1F43E), (0x1F440, 0x1F440), (0x1F442, 0x1F4FC),
    (0x1F4FF, 0x1F53D), (0x1F54B, 0x1F54E), (0x1F550, 0x1F567), (0x1F57A, 0x1F57A),
    (0x1F595, 0x1F596), (0x1F5A4, 0x1F5A4), (0x1F5FB, 0x1F64F), (0x1F680, 0x1F6C5),
    (0x1F6CC, 0x1F6CC), (0x1F6D0, 0x1F6D2), (0x1F6D5, 0x1F6D7), (0x1F6DC, 0x1F6DF),
    (0x1F6EB, 0x1F6EC), (0x1F6F4, 0x1F6FC), (0x1F7E0, 0x1F7EB), (0x1F7F0, 0x1F7F0),
    (0x1F90C, 0x1F93A), (0x1F93C, 0x1F945), (0x1F947, 0x1F9FF), (0x1FA70, 0x1FA7C),
    (0x1FA80, 0x1FA89), (0x1FA8F, 0x1FAC6), (0x1FACE, 0x1FADC), (0x1FADF, 0x1FAE9),
    (0x1FAF0, 0x1FAF8), (0x20000, 0x2FFFD), (0x30000, 0x3FFFD)]

/-- Characters that show nothing where a font does not know them. -/
def ignorableRanges : Ranges :=
   [(0xAD, 0xAD), (0x34F, 0x34F), (0x61C, 0x61C), (0x115F, 0x1160), (0x17B4, 0x17B5),
    (0x180B, 0x180F), (0x200B, 0x200F), (0x202A, 0x202E), (0x2060, 0x206F), (0x3164, 0x3164),
    (0xFE00, 0xFE0F), (0xFEFF, 0xFEFF), (0xFFA0, 0xFFA0), (0xFFF0, 0xFFF8), (0x1BCA0, 0x1BCA3),
    (0x1D173, 0x1D17A), (0xE0000, 0xE0FFF)]

/-- Signs that surround or cover other characters and are no marks. -/
def coveringRanges : Ranges :=
   [(0x605, 0x605), (0x70F, 0x70F), (0x890, 0x891), (0x8E2, 0x8E2), (0xA8FA, 0xA8FA)]

/-- A vowel or a final consonant of a Korean syllable; it is put below what is before it. -/
def isInnerJamo (c : Char) : Bool :=
  (0x1160 ≤ c.toNat && c.toNat ≤ 0x11FF) || (0xD7B0 ≤ c.toNat && c.toNat ≤ 0xD7C6) ||
    (0xD7CB ≤ c.toNat && c.toNat ≤ 0xD7FB)

/-- Does the character take no column?  The filler for the first consonant of a Korean syllable has
the width of the syllable, and the joiner of two Tifinagh letters is seen behind one alone. -/
def isCovering (c : Char) : Bool :=
  c != '\u115F' && c != '\u2D7F' &&
    ((extendingRanges.contains c && !isTone c) || ignorableRanges.contains c || isInnerJamo c ||
      coveringRanges.contains c)

def isWide : Char → Bool := wideRanges.contains

/-- How many columns a character takes. -/
def columns (c : Char) : Nat :=
  if c == '\n' then 0
  else if c.toNat < 0xA0 then 1
  else if isCovering c then 0
  else if isWide c then 2
  else if c == '\u17D8' then 3
  else 1

/-- Is the character drawn as a picture without being asked to? -/
def isPicture (c : Char) : Bool := isPictograph c && isWide c

/-- The mark that puts the letter behind it below the one before. -/
def subjoiner : Char := '\u17D2'

/-- A letter that can be put below another. -/
def isSubjoinable (c : Char) : Bool :=
  Ranges.contains [(0x1780, 0x1782), (0x1784, 0x1787), (0x1789, 0x178C), (0x178E, 0x1793),
    (0x1795, 0x1798), (0x179B, 0x179D), (0x17A0, 0x17A0), (0x17A2, 0x17A2), (0x17A7, 0x17A7),
    (0x17AB, 0x17AC), (0x17AF, 0x17AF)] c

/-- What a character has behind it, as far as that can change its width. -/
inductive Ahead
  | nothing
  | lineFeed
  | picture
  /-- A picture, and a joiner in front of it. -/
  | joined
  /-- A selector for a picture; what is behind it may be a joined picture. -/
  | selector (joined : Bool)
  | tone
  | subjoinable
deriving DecidableEq, Repr

/-- Put a character in front of a text of known width. -/
def widen (c : Char) : Nat × Ahead → Nat × Ahead
  | (width, ahead) =>
    match ahead, c with
    | .lineFeed, '\r' => (width, .nothing)
    | .tone, c => if isToned c then (width, .picture) else (width + columns c, next c)
    | .subjoinable, '\u17D2' => (width - 1, .nothing)
    | .picture, '\u200D' => (width, .joined)
    | .joined, c =>
      if c == pictureSelector then (width, .selector true)
      else if isTone c then (width, .tone)
      else if isPicture c then (width, .picture)
      else (width + columns c, next c)
    | .selector joined, c =>
      if isSelectable c then (if joined then width else width + 2, .picture)
      else (width + columns c, next c)
    | _, c => (width + columns c, next c)
where
  /-- What a character is for the one before it. -/
  next (c : Char) : Ahead :=
    if c == '\n' then .lineFeed
    else if c.toNat < 0xA0 then .nothing
    else if c == pictureSelector then .selector false
    else if isTone c then .tone
    else if isPicture c then .picture
    else if isSubjoinable c then .subjoinable
    else .nothing

/-- How many columns a text takes. -/
def width (cs : List Char) : Nat := (cs.foldr widen (0, .nothing)).1

/-- A text of plain Latin letters and signs takes a column for each. -/
theorem width_of_graphic {cs : List Char} (h : ∀ c ∈ cs, 0x20 ≤ c.toNat ∧ c.toNat < 0x7F) :
    width cs = cs.length := by
  suffices cs.foldr widen (0, .nothing) = (cs.length, .nothing) by rw [width, this]
  induction cs with
  | nil => rfl
  | cons c rest ih =>
    have hc := h c (List.mem_cons_self ..)
    have hn : c ≠ '\n' := by
      rintro rfl
      exact absurd hc.1 (by decide)
    have hlow : c.toNat < 0xA0 := by omega
    rw [List.foldr_cons, ih fun d hd => h d (List.mem_cons_of_mem c hd)]
    simp [widen, widen.next, columns, hn, hlow]

end Chronicle.Text
