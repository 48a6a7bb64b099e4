import Chronicle.Proofs.Grammar.Outline
/-!
Derivation trees.

A derivation tree is a terminal, or a rule with a tree for each symbol of its right side; a rule
with the empty word on the right has nothing below it.  So the leaves are terminals and empty right
sides, and the height counts the rules on the longest way down.  The terminals from left to right
are a word that the root derives (`DerivationTree.derives`).
-/

namespace Chronicle

namespace Outline

mutual

/-- A tree that derives a word of terminals from the symbol. -/
inductive DerivationTree (o : Outline) : String → Type
  | leaf {s : String} (terminal : s ∈ o.terminals) : DerivationTree o s
  | node {key : RuleKey} (rule : key ∈ o.rules) (below : DerivationRow o key.right.symbols) :
      DerivationTree o key.left

/-- A tree for each symbol of a word. -/
inductive DerivationRow (o : Outline) : List String → Type
  | nil : DerivationRow o []
  | cons {s : String} {word : List String} (first : DerivationTree o s)
      (rest : DerivationRow o word) : DerivationRow o (s :: word)

end

variable {o : Outline} {s : String} {word : List String}

mutual

/-- The number of rules on the longest way down. -/
def DerivationTree.height {s : String} : DerivationTree o s → Nat
  | .leaf _ => 0
  | .node _ below => below.height + 1

def DerivationRow.height {word : List String} : DerivationRow o word → Nat
  | .nil => 0
  | .cons first rest => max first.height rest.height

end

mutual

/-- The terminals at the leaves, from left to right. -/
def DerivationTree.yield {s : String} : DerivationTree o s → List String
  | .leaf (s := s) _ => [s]
  | .node _ below => below.yield

def DerivationRow.yield {word : List String} : DerivationRow o word → List String
  | .nil => []
  | .cons first rest => first.yield ++ rest.yield

end

mutual

/-- **The root of a derivation tree derives what stands at its leaves**, and these are terminals. -/
theorem DerivationTree.derives {s : String} (t : DerivationTree o s) :
    o.IsTerminal t.yield ∧ o.Derives [s] t.yield := by
  cases t with
  | leaf terminal => exact ⟨by simpa [IsTerminal, DerivationTree.yield] using terminal, .refl⟩
  | node rule below =>
      obtain ⟨hterminal, hderives⟩ := below.derives
      have hrule := Rewrites.rule [] [] rule
      rw [List.nil_append, List.nil_append, List.append_nil] at hrule
      exact ⟨hterminal, hderives.head hrule⟩

theorem DerivationRow.derives {word : List String} (row : DerivationRow o word) :
    o.IsTerminal row.yield ∧ o.Derives word row.yield := by
  cases row with
  | nil => exact ⟨by simp [IsTerminal, DerivationRow.yield], .refl⟩
  | @cons s word first rest =>
      obtain ⟨hfirst, hderivesFirst⟩ := first.derives
      obtain ⟨hrest, hderivesRest⟩ := rest.derives
      refine ⟨fun x hx => (List.mem_append.mp hx).elim (hfirst x) (hrest x), ?_⟩
      have hhead : o.Derives (s :: word) (first.yield ++ word) := hderivesFirst.append [] word
      have htail := hderivesRest.append first.yield []
      rw [List.append_nil, List.append_nil] at htail
      exact hhead.trans htail

end

/-- Trees for the single symbols make a row. -/
theorem exists_row {n : Nat} (h : ∀ s ∈ word, ∃ t : DerivationTree o s, t.height ≤ n) :
    ∃ row : DerivationRow o word, row.height ≤ n := by
  induction word with
  | nil => exact ⟨.nil, Nat.zero_le n⟩
  | cons s word ih =>
      obtain ⟨first, hfirst⟩ := h s List.mem_cons_self
      obtain ⟨rest, hrest⟩ := ih fun x hx => h x (List.mem_cons_of_mem _ hx)
      exact ⟨.cons first rest, Nat.max_le.mpr ⟨hfirst, hrest⟩⟩

/-- There is a tree for each symbol in a row, and none is higher than the row. -/
theorem DerivationRow.exists_tree {s : String} {word : List String} :
    (row : DerivationRow o word) → s ∈ word → ∃ t : DerivationTree o s, t.height ≤ row.height
  | .cons first rest, hs => by
      rcases List.mem_cons.mp hs with rfl | hs
      · exact ⟨first, Nat.le_max_left _ _⟩
      · obtain ⟨t, ht⟩ := rest.exists_tree hs
        exact ⟨t, ht.trans (Nat.le_max_right _ _)⟩

end Outline

end Chronicle
