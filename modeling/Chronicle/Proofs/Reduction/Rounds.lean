import Chronicle.Proofs.Grammar.Trees
import Chronicle.Proofs.Reduction.Edits
import Mathlib.Data.Set.Card
import Mathlib.Order.Bounds.Basic
/-!
What is known after a number of rounds.

Each round of the reduction adds to a set what follows from the members that it had before
(`Outline.after`).  After so many rounds the generating nonterminals are known that have a
derivation tree of that height, and the reachable ones that so many rules lead to.  Since there are
finitely many nonterminals, some round adds nothing (`exists_isLeast_after_eq`).
-/

namespace Chronicle

namespace Outline

variable {o : Outline} {adds : Set String → Set String} {known bound : Set String} {x : String}
  {n : Nat}

/-- What is known after so many rounds, if each of them adds something to what was known. -/
def after (adds : Set String → Set String) (known : Set String) : Nat → Set String
  | 0 => known
  | n + 1 => after adds known n ∪ adds (after adds known n)

theorem after_subset_succ (adds : Set String → Set String) (known : Set String) (n : Nat) :
    after adds known n ⊆ after adds known (n + 1) := Set.subset_union_left

theorem after_subset_of_le (adds : Set String → Set String) (known : Set String) {m : Nat}
    (h : m ≤ n) : after adds known m ⊆ after adds known n := by
  induction h with
  | refl => exact .rfl
  | step _ ih => exact ih.trans (after_subset_succ adds known _)

/-- The first round can be taken apart. -/
theorem after_union (adds : Set String → Set String) (known : Set String) (n : Nat) :
    after adds (known ∪ adds known) n = after adds known (n + 1) := by
  induction n with
  | zero => rfl
  | succ n ih =>
      rw [after, ih]
      rfl

/-- What no round leads out of holds all that is known. -/
theorem after_subset (hknown : known ⊆ bound) (hadds : ∀ s, s ⊆ bound → adds s ⊆ bound) (n : Nat) :
    after adds known n ⊆ bound := by
  induction n with
  | zero => exact hknown
  | succ n ih => exact Set.union_subset ih (hadds _ ih)

/-- As long as every round adds something, there is one more after each. -/
theorem add_le_ncard_after (hfinite : bound.Finite) (hbound : ∀ n, after adds known n ⊆ bound)
    (hnew : ∀ j, 0 < j → j ≤ n → after adds known j ≠ after adds known (j - 1)) :
    known.ncard + n ≤ (after adds known n).ncard := by
  induction n with
  | zero => exact Nat.le_refl _
  | succ n ih =>
      have hne := hnew (n + 1) n.succ_pos le_rfl
      have hless := Set.ncard_lt_ncard ((after_subset_succ adds known n).ssubset_of_ne hne.symm)
        (hfinite.subset (hbound (n + 1)))
      have hmany := ih fun j hj hle => hnew j hj (hle.trans n.le_succ)
      omega

/-- **Some round adds nothing**, if only finitely much can be known. -/
theorem exists_isLeast_after_eq (hfinite : bound.Finite)
    (hbound : ∀ n, after adds known n ⊆ bound) :
    ∃ k, IsLeast {j | 0 < j ∧ after adds known j = after adds known (j - 1)} k := by
  suffices hex : ∃ j, 0 < j ∧ after adds known j = after adds known (j - 1) by
    classical
    exact ⟨Nat.find hex, Nat.find_spec hex, fun j hj => Nat.find_min' hex hj⟩
  by_contra hnone
  have hmany := add_le_ncard_after (n := bound.ncard + 1) hfinite hbound
    fun j hj _ heq => hnone ⟨j, hj, heq⟩
  have hfew := Set.ncard_le_ncard (hbound (bound.ncard + 1)) hfinite
  omega

/-- Each round but the last finds something that was not known before. -/
theorem add_ncard_le {k : Nat}
    (hlast : IsLeast {j | 0 < j ∧ after adds known j = after adds known (j - 1)} k)
    (hfinite : bound.Finite) (hbound : ∀ n, after adds known n ⊆ bound) :
    k + known.ncard ≤ bound.ncard + 1 := by
  have hmany := add_le_ncard_after (n := k - 1) hfinite hbound fun j hj hle heq => by
    have hleast : k ≤ j := hlast.2 ⟨hj, heq⟩
    omega
  have hfew := Set.ncard_le_ncard (hbound (k - 1)) hfinite
  omega

/-- **There are not more rounds than there is to be known**, unless the first one finds something
although nothing was known. -/
theorem le_ncard {k : Nat}
    (hlast : IsLeast {j | 0 < j ∧ after adds known j = after adds known (j - 1)} k)
    (hfinite : bound.Finite) (hbound : ∀ n, after adds known n ⊆ bound) (hsome : bound.Nonempty)
    (hidle : known = ∅ → adds known = ∅) : k ≤ bound.ncard := by
  by_cases hempty : known = ∅
  · have hone : k ≤ 1 := hlast.2 ⟨Nat.one_pos, by simp [after, hidle hempty]⟩
    exact hone.trans ((Set.ncard_pos hfinite).mpr hsome)
  · have hknown : known.Finite := hfinite.subset (hbound 0)
    have hpos : 0 < known.ncard :=
      (Set.ncard_pos hknown).mpr (Set.nonempty_iff_ne_empty.mpr hempty)
    have hfew := add_ncard_le hlast hfinite hbound
    omega

/-- Up to that round each but the last finds something new. -/
theorem adds_subset_after_iff {k : Nat}
    (hlast : IsLeast {j | 0 < j ∧ after adds known j = after adds known (j - 1)} k) (hn : n < k) :
    adds (after adds known n) ⊆ after adds known n ↔ n + 1 = k := by
  constructor
  · intro hsubset
    have hmem : n + 1 ∈ {j | 0 < j ∧ after adds known j = after adds known (j - 1)} :=
      ⟨n.succ_pos, Set.union_eq_self_of_subset_right hsubset⟩
    exact Nat.le_antisymm hn (hlast.2 hmem)
  · intro heq
    subst heq
    have hsame : after adds known (n + 1) = after adds known n := hlast.1.2
    exact Set.union_eq_left.mp hsame

/-- In the end no round would find anything new. -/
theorem adds_subset_after_last {k : Nat}
    (hlast : IsLeast {j | 0 < j ∧ after adds known j = after adds known (j - 1)} k) :
    adds (after adds known k) ⊆ after adds known k := by
  obtain ⟨hpos, hsame⟩ := hlast.1
  obtain ⟨n, rfl⟩ := Nat.exists_eq_succ_of_ne_zero hpos.ne'
  rw [hsame]
  exact (adds_subset_after_iff hlast n.lt_succ_self).mpr rfl

/-! ### Derivation trees of limited height -/

/-- The nonterminals with a derivation tree of at most that height. -/
def derivableWithin (o : Outline) (height : Nat) : Set String :=
  {x | x ∈ o.nonterminals ∧ ∃ t : DerivationTree o x, t.height ≤ height}

/-- **After so many rounds those nonterminals are known that have a derivation tree of that
height.** -/
theorem mem_after_generatingOver (hclosed : o.Closed) (hnamed : o.Named) :
    x ∈ after o.generatingOver ∅ n ↔ x ∈ o.derivableWithin n := by
  constructor
  · intro hx
    induction n generalizing x with
    | zero => cases hx
    | succ n ih =>
        rcases hx with hx | ⟨key, hkey, rfl, hright⟩
        · obtain ⟨hmem, t, ht⟩ := ih hx
          exact ⟨hmem, t, by omega⟩
        · obtain ⟨row, hrow⟩ := exists_row (n := n) fun s hs => by
            rcases hclosed.right key hkey s hs with hn | hterminal
            · exact (ih (hright s hs hn)).2
            · exact ⟨.leaf hterminal, Nat.zero_le n⟩
          exact ⟨hclosed.left key hkey, .node hkey row, Nat.succ_le_succ hrow⟩
  · intro h
    obtain ⟨hmem, t, ht⟩ := h
    induction n generalizing x with
    | zero =>
        cases t with
        | leaf terminal => exact absurd terminal (hnamed.not_terminal hmem)
        | node hkey row => exact absurd ht (Nat.not_succ_le_zero _)
    | succ n ih =>
        cases t with
        | leaf terminal => exact absurd terminal (hnamed.not_terminal hmem)
        | node hkey row =>
            refine .inr ⟨_, hkey, rfl, fun s hs hn => ?_⟩
            obtain ⟨below, hbelow⟩ := row.exists_tree hs
            exact ih hn below (hbelow.trans (Nat.le_of_succ_le_succ ht))

/-- The lowest trees are those of the rules without nonterminals on the right. -/
theorem derivableWithin_one (hclosed : o.Closed) (hnamed : o.Named) : o.derivableWithin 1 =
    {x | ∃ key ∈ o.rules, key.left = x ∧ ∀ s ∈ key.right.symbols, s ∉ o.nonterminals} := by
  ext x
  rw [← mem_after_generatingOver hclosed hnamed, after, after, Set.empty_union]
  rfl

/-! ### Nonterminals that a number of rules lead to -/

/-- So many rules, one after the other, lead from the start symbol to the nonterminal. -/
inductive ReachableIn (o : Outline) : Nat → String → Prop
  | start : ReachableIn o 0 o.start
  | rule {n : Nat} {key : RuleKey} {s : String} (h : key ∈ o.rules)
      (left : ReachableIn o n key.left) (right : s ∈ key.right.symbols)
      (nonterminal : s ∈ o.nonterminals) : ReachableIn o (n + 1) s

/-- The nonterminals that at most so many rules lead to. -/
def reachableWithin (o : Outline) (n : Nat) : Set String := {x | ∃ k ≤ n, o.ReachableIn k x}

/-- **After so many rounds those nonterminals are known that at most so many rules lead to.** -/
theorem mem_after_reachableOver :
    x ∈ after o.reachableOver {o.start} n ↔ x ∈ o.reachableWithin n := by
  induction n generalizing x with
  | zero =>
      constructor
      · intro hx
        obtain rfl : x = o.start := hx
        exact ⟨0, .refl, .start⟩
      · intro h
        obtain ⟨k, hk, hreach⟩ := h
        obtain rfl := Nat.le_zero.mp hk
        cases hreach with
        | start => rfl
  | succ n ih =>
      constructor
      · intro hx
        rcases hx with hx | ⟨key, hkey, hleft, hright, hn⟩
        · obtain ⟨k, hk, hreach⟩ := ih.mp hx
          exact ⟨k, hk.trans n.le_succ, hreach⟩
        · obtain ⟨k, hk, hreach⟩ := ih.mp hleft
          exact ⟨k + 1, Nat.succ_le_succ hk, .rule hkey hreach hright hn⟩
      · intro h
        obtain ⟨k, hk, hreach⟩ := h
        cases hreach with
        | start => exact .inl (ih.mpr ⟨0, Nat.zero_le n, .start⟩)
        | rule hkey hleft hright hn =>
            exact .inr ⟨_, hkey, ih.mpr ⟨_, Nat.le_of_succ_le_succ hk, hleft⟩, hright, hn⟩

end Outline

end Chronicle
