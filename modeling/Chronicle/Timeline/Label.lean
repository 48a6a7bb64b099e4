/-!
Labels: the position of a step as the path that leads to it.

A label lists, from the top, the one-based place among siblings at every level; the root has the
empty label.  Its text is the places in decimal, joined by dots.
-/

namespace Chronicle

/-- The position of a step in the tree of steps. -/
structure Label where
  path : List Nat
deriving DecidableEq, Repr, Inhabited

namespace Label

/-- The position of the root. -/
def root : Label := ⟨[]⟩

def text (l : Label) : String := ".".intercalate (l.path.map toString)

/-- The position of the first step below. -/
def below (l : Label) : Label := ⟨l.path ++ [1]⟩

/-- The position right behind among the siblings. -/
def following (l : Label) : Label := ⟨l.path.dropLast ++ [l.path.getLastD 0 + 1]⟩

end Label

end Chronicle
