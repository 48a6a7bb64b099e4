import Chronicle.Text.Mark
import Chronicle.Text.Pictograph
/-!
The clusters of a text: what a reader takes for one character.

A cluster is a character with the marks that belong to it, a syllable of the Korean script, two
letters of a flag, a joined picture, or a whole line break.  A text is divided from its front: each
character is added to the cluster before it, or begins the next one.  Nothing is lost by that
(`flatten_clusters`), and no cluster is empty (`ne_nil_of_mem_clusters`).
-/

namespace Chronicle.Text

/-! ### The parts of clusters -/

/-- Characters that neither join a neighbour nor let one join them. -/
def controlRanges : Ranges :=
   [(0x0, 0x1F), (0x7F, 0x9F), (0xAD, 0xAD), (0x61C, 0x61C), (0x180E, 0x180E), (0x200B, 0x200B),
    (0x200E, 0x200F), (0x2028, 0x202E), (0x2060, 0x206F), (0xFEFF, 0xFEFF), (0xFFF0, 0xFFFB),
    (0x13430, 0x1343F), (0x1BCA0, 0x1BCA3), (0x1D173, 0x1D17A), (0xE0000, 0xE001F),
    (0xE0080, 0xE00FF), (0xE01F0, 0xE0FFF)]

/-- What a character can be in a cluster. -/
inductive Role
  | carriageReturn
  | lineFeed
  | control
  | extending
  | joiner
  | spacing
  | prepended
  | flagLetter
  /-- The consonant in front of a Korean syllable. -/
  | leading
  | vowel
  /-- The consonant at the end of a Korean syllable. -/
  | trailing
  /-- A Korean syllable that ends with its vowel. -/
  | openSyllable
  | closedSyllable
  | pictograph
  | other
deriving DecidableEq, Repr

/-- The role of a character that begins or ends a Korean syllable, or is one.  The vowels of
another script that are put together from parts are taken for the same. -/
def Role.ofSyllable? (n : Nat) : Option Role :=
  if (0x1100 ≤ n && n ≤ 0x115F) || (0xA960 ≤ n && n ≤ 0xA97C) then some leading
  else if (0x1160 ≤ n && n ≤ 0x11A7) || (0xD7B0 ≤ n && n ≤ 0xD7C6) || n == 0x16D63 ||
      (0x16D67 ≤ n && n ≤ 0x16D6A) then some vowel
  else if (0x11A8 ≤ n && n ≤ 0x11FF) || (0xD7CB ≤ n && n ≤ 0xD7FB) then some trailing
  else if 0xAC00 ≤ n && n ≤ 0xD7A3 then
    some (if (n - 0xAC00) % 28 = 0 then openSyllable else closedSyllable)
  else none

/-- The role of a character. -/
def roleOf (c : Char) : Role :=
  if c == '\r' then .carriageReturn
  else if c == '\n' then .lineFeed
  else if 0x20 ≤ c.toNat && c.toNat < 0x7F then .other
  else if controlRanges.contains c then .control
  else if c == pictureJoiner then .joiner
  else if extendingRanges.contains c then .extending
  else if spacingRanges.contains c then .spacing
  else if prependedRanges.contains c then .prepended
  else if isFlagLetter c then .flagLetter
  else if isPictograph c then .pictograph
  else (Role.ofSyllable? c.toNat).getD .other

/-! ### Joining -/

/-- A mark that two consonants may have between them. -/
def isBetweenConsonants (c : Char) : Bool :=
  (roleOf c = .extending || roleOf c = .joiner) && c != '\u200C'

/-- Does a cluster, given from its end, end in a consonant with a linking mark behind it? -/
def endsLinked (cluster : List Char) : Bool :=
  (cluster.takeWhile isBetweenConsonants).any linkingRanges.contains &&
    (cluster.dropWhile isBetweenConsonants).head?.any consonantRanges.contains

/-- Does a cluster, given from its end, end in a picture with nothing but marks put on it? -/
def endsPictured (cluster : List Char) : Bool :=
  (cluster.dropWhile fun c => roleOf c = .extending).head?.any isPictograph

/-- Do the letters of flags at the end of a cluster lack one for the last flag? -/
def lacksFlagLetter (cluster : List Char) : Bool :=
  (cluster.takeWhile isFlagLetter).length % 2 == 1

/-- Does a character belong to the cluster before it, which is given from its end? -/
def joins : (cluster : List Char) → Char → Bool
  | [], _ => false
  | last :: front, c =>
    match roleOf last, roleOf c with
    | .carriageReturn, .lineFeed => true
    | .carriageReturn, _ | .lineFeed, _ | .control, _ => false
    | _, .carriageReturn | _, .lineFeed | _, .control => false
    | .leading, .leading | .leading, .vowel | .leading, .openSyllable
    | .leading, .closedSyllable => true
    | .openSyllable, .vowel | .openSyllable, .trailing | .vowel, .vowel | .vowel, .trailing => true
    | .closedSyllable, .trailing | .trailing, .trailing => true
    | _, .extending | _, .joiner | _, .spacing | .prepended, _ => true
    | .joiner, .pictograph => endsPictured front
    | .flagLetter, .flagLetter => lacksFlagLetter (last :: front)
    | _, _ => consonantRanges.contains c && endsLinked (last :: front)

/-! ### Clusters -/

/-- The clusters of a text whose first cluster began with the given characters, which stand from
the last to the first. -/
def clustersFrom (cluster : List Char) : List Char → List (List Char)
  | [] => [cluster.reverse]
  | c :: rest =>
    if joins cluster c then clustersFrom (c :: cluster) rest
    else cluster.reverse :: clustersFrom [c] rest

/-- The clusters of a text. -/
def clusters : List Char → List (List Char)
  | [] => []
  | c :: rest => clustersFrom [c] rest

theorem flatten_clustersFrom (cluster cs : List Char) :
    (clustersFrom cluster cs).flatten = cluster.reverse ++ cs := by
  induction cs generalizing cluster with
  | nil => simp [clustersFrom]
  | cons c rest ih =>
    rw [clustersFrom]
    split
    · simp [ih]
    · simp [ih]

/-- The clusters of a text, put together, are the text. -/
theorem flatten_clusters (cs : List Char) : (clusters cs).flatten = cs := by
  cases cs with
  | nil => rfl
  | cons c rest => simp [clusters, flatten_clustersFrom]

theorem ne_nil_of_mem_clustersFrom {cluster cs part : List Char} (h : cluster ≠ [])
    (mem : part ∈ clustersFrom cluster cs) : part ≠ [] := by
  induction cs generalizing cluster with
  | nil => simp_all [clustersFrom]
  | cons c rest ih =>
    rw [clustersFrom] at mem
    split at mem
    · exact ih (List.cons_ne_nil c cluster) mem
    · rcases List.mem_cons.1 mem with rfl | mem
      · simpa using h
      · exact ih (List.cons_ne_nil c []) mem

/-- No cluster is empty. -/
theorem ne_nil_of_mem_clusters {cs part : List Char} (mem : part ∈ clusters cs) : part ≠ [] := by
  cases cs with
  | nil => simp [clusters] at mem
  | cons c rest => exact ne_nil_of_mem_clustersFrom (List.cons_ne_nil c []) mem

end Chronicle.Text
