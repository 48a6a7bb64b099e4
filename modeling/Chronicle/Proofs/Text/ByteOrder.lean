import Chronicle.SortedMap.Basic
import Mathlib.Data.List.Lex
import Mathlib.Tactic.IntervalCases
import Mathlib.Tactic.SplitIfs
/-!
The order of texts is that of their bytes.

Texts are compared character by character, and characters by their code points.  Stored in UTF-8,
the bytes of a character with a greater code point come later in the order of bytes, whatever
follows on either side (`encode_append_lt`): more bytes have a greater lead, and with equally many
bytes the digits of the code points decide, in base 64.  So comparing the bytes comes to the same
(`bytes_lt_iff`), and a map from texts is kept in the order of their bytes (`bytes_increasing`).
-/

namespace Chronicle

namespace Text

variable {s t : String} {v w : Nat} {x y : List UInt8}

/-- The bytes of a text, in UTF-8. -/
def bytes (s : String) : List UInt8 := s.toUTF8.data.toList

theorem bytes_eq_flatMap (s : String) : bytes s = s.toList.flatMap String.utf8EncodeChar := by
  have hencode : (String.ofList s.toList).toByteArray = s.toList.utf8Encode :=
    String.toByteArray_ofList
  rw [String.ofList_toList] at hencode
  rw [bytes, String.toUTF8_eq_toByteArray, hencode, List.utf8Encode]
  exact List.toList_data_toByteArray

/-! ### One character -/

/-- The first bytes decide, and the others if those are the same. -/
theorem byte_cons_lt (hv : v < 256) (hw : w < 256) (h : v < w ∨ v = w ∧ x < y) :
    UInt8.ofNat v :: x < UInt8.ofNat w :: y := by
  rw [List.cons_lt_cons_iff, UInt8.lt_iff_toNat_lt, UInt8.toNat_ofNat_of_lt' hv,
    UInt8.toNat_ofNat_of_lt' hw]
  exact h.imp_right (And.imp_left (congrArg UInt8.ofNat))

/-- The last digits of a code point in base 64, so many of them, as the bytes behind the lead. -/
def trail : Nat → Nat → List UInt8
  | 0, _ => []
  | n + 1, v => .ofNat (v / 64 ^ n % 64 + 128) :: trail n v

/-- The digits are in the order of the numbers that they make. -/
theorem trail_append_lt (n : Nat) (h : v % 64 ^ n < w % 64 ^ n) (x y : List UInt8) :
    trail n v ++ x < trail n w ++ y := by
  induction n with
  | zero => simp [Nat.mod_one] at h
  | succ n ih =>
      rw [Nat.mod_pow_succ, Nat.mod_pow_succ] at h
      have hfirst : v / 64 ^ n % 64 ≤ w / 64 ^ n % 64 := by
        by_contra hlt
        have hmul := Nat.mul_le_mul_left (64 ^ n) (Nat.succ_le_of_lt (Nat.lt_of_not_le hlt))
        have hsmall := Nat.mod_lt w (Nat.pow_pos (n := n) (by decide : 0 < 64))
        rw [Nat.mul_succ] at hmul
        omega
      refine byte_cons_lt (by omega) (by omega) ?_
      by_cases heq : v / 64 ^ n % 64 = w / 64 ^ n % 64
      · rw [heq, Nat.add_lt_add_iff_right] at h
        exact .inr ⟨by rw [heq], ih h⟩
      · exact .inl (by omega)

/-- The least code point with so many bytes behind the lead. -/
def least : Nat → Nat
  | 0 => 0
  | 1 => 0x80
  | 2 => 0x800
  | 3 => 0x10000
  | _ => 0x110000

/-- What the lead tells of the number of bytes behind it. -/
def leadMark : Nat → Nat
  | 0 => 0
  | 1 => 0xC0
  | 2 => 0xE0
  | _ => 0xF0

/-- A character is a lead with the first digit, and the other digits. -/
theorem exists_encode_eq (c : Char) : ∃ n ≤ 3, least n ≤ c.toNat ∧ c.toNat < least (n + 1) ∧
    String.utf8EncodeChar c = .ofNat (c.toNat / 64 ^ n + leadMark n) :: trail n c.toNat := by
  have hlimit : c.toNat < 0x110000 := by
    rcases c.valid with hlow | ⟨-, hhigh⟩
    · exact hlow.trans (by decide)
    · exact hhigh
  unfold String.utf8EncodeChar
  rw [show c.val.toNat = c.toNat from rfl]
  generalize c.toNat = v at hlimit
  dsimp only
  split_ifs with h₁ h₂ h₃
  · refine ⟨0, by decide, Nat.zero_le v, Nat.lt_succ_of_le h₁, ?_⟩
    simp [leadMark, trail]
  · have hdigit : v / 64 % 32 = v / 64 := by omega
    refine ⟨1, by decide, Nat.lt_of_not_le h₁, Nat.lt_succ_of_le h₂, ?_⟩
    rw [hdigit]
    simp [leadMark, trail]
  · have hdigit : v / 4096 % 16 = v / 4096 := by omega
    refine ⟨2, by decide, Nat.lt_of_not_le h₂, Nat.lt_succ_of_le h₃, ?_⟩
    rw [hdigit]
    simp [leadMark, trail]
  · have hdigit : v / 262144 % 8 = v / 262144 := by omega
    refine ⟨3, by decide, Nat.lt_of_not_le h₃, hlimit, ?_⟩
    rw [hdigit]
    simp [leadMark, trail]

/-- **The bytes of a later character come later**, whatever follows. -/
theorem encode_append_lt {c d : Char} (h : c < d) (x y : List UInt8) :
    String.utf8EncodeChar c ++ x < String.utf8EncodeChar d ++ y := by
  have hlt : c.toNat < d.toNat := h
  obtain ⟨n, hn, hlow, hhigh, heq⟩ := exists_encode_eq c
  obtain ⟨m, hm, hlow', hhigh', heq'⟩ := exists_encode_eq d
  rw [heq, heq']
  generalize c.toNat = v at *
  generalize d.toNat = w at *
  have hbyte : v / 64 ^ n + leadMark n < 256 ∧ w / 64 ^ m + leadMark m < 256 := by
    constructor
    · interval_cases n <;> simp only [least, leadMark] at * <;> omega
    · interval_cases m <;> simp only [least, leadMark] at * <;> omega
  refine byte_cons_lt hbyte.1 hbyte.2 ?_
  rcases Nat.lt_trichotomy n m with hless | rfl | hmore
  · -- The lead of more bytes is greater.
    left
    interval_cases m <;> interval_cases n <;> simp only [least, leadMark] at * <;> omega
  · by_cases hdigit : v / 64 ^ n = w / 64 ^ n
    · refine .inr ⟨by rw [hdigit], trail_append_lt n ?_ x y⟩
      have hv := Nat.div_add_mod v (64 ^ n)
      have hw := Nat.div_add_mod w (64 ^ n)
      rw [hdigit] at hv
      omega
    · have hle : v / 64 ^ n ≤ w / 64 ^ n := Nat.div_le_div_right hlt.le
      exact .inl (by omega)
  · exfalso
    interval_cases n <;> interval_cases m <;> simp only [least] at * <;> omega

/-! ### Texts -/

theorem flatMap_encode_lt {l m : List Char} (h : l < m) :
    l.flatMap String.utf8EncodeChar < m.flatMap String.utf8EncodeChar := by
  induction l generalizing m with
  | nil =>
      cases m with
      | nil => exact absurd h (List.lt_irrefl _)
      | cons d m =>
          obtain ⟨n, -, -, -, heq⟩ := exists_encode_eq d
          rw [List.flatMap_nil, List.flatMap_cons, heq]
          exact List.nil_lt_cons _ _
  | cons c l ih =>
      cases m with
      | nil => exact absurd h (List.not_lt_nil _)
      | cons d m =>
          rw [List.flatMap_cons, List.flatMap_cons]
          rcases List.cons_lt_cons_iff.mp h with hlt | ⟨rfl, hrest⟩
          · exact encode_append_lt hlt _ _
          · exact List.append_left_lt (ih hrest)

/-- **Texts are in the order of their bytes.** -/
theorem bytes_lt_iff : bytes s < bytes t ↔ s < t := by
  rw [bytes_eq_flatMap, bytes_eq_flatMap, String.lt_iff]
  refine ⟨fun h => ?_, flatMap_encode_lt⟩
  rcases Std.lt_trichotomy s.toList t.toList with hlt | heq | hgt
  · exact hlt
  · rw [heq] at h
    exact absurd h (List.lt_irrefl _)
  · exact absurd (List.lt_trans h (flatMap_encode_lt hgt)) (List.lt_irrefl _)

theorem compare_eq_lt_iff : compare s t = .lt ↔ bytes s < bytes t := by
  rw [bytes_lt_iff]
  exact compareOfLessAndEq_eq_lt

end Text

namespace SortedMap

variable {α : Type}

/-- A map from texts is kept in the order of their bytes. -/
theorem bytes_increasing (m : SortedMap String α) :
    m.toList.Pairwise fun a b => Text.bytes a.1 < Text.bytes b.1 :=
  m.sorted.imp fun h => Text.compare_eq_lt_iff.mp h

end SortedMap

end Chronicle
