import Chronicle.SortedMap.Basic
import Chronicle.Tag
/-!
Symbol sets with two memberships.

While a step runs, a set shows its *effective* members and collects changes in its *proposed*
members; archiving the step makes the proposed membership the effective one.  The operations
whose names end in `Now` change both at once.
-/

namespace Chronicle

/-- A set of texts, usually symbol names, with deferred changes and a tag of its own. -/
structure SymbolSet where
  /-- What the set holds for those who ask. -/
  effective : SortedSet String
  /-- What the set will hold once the step is archived. -/
  proposed : SortedSet String
  tag : Tag
deriving DecidableEq, Inhabited

namespace SymbolSet

def empty : SymbolSet := ⟨.empty, .empty, .none⟩

/-- A set whose two memberships agree. -/
def ofList (items : List String) (tag : Tag) : SymbolSet :=
  ⟨.ofList items, .ofList items, tag⟩

def contains (s : SymbolSet) (item : String) : Bool := s.effective.contains item

/-- The effective members in order. -/
def items (s : SymbolSet) : List String := s.effective.toList

/-- The proposed members in order. -/
def pending (s : SymbolSet) : List String := s.proposed.toList

def size (s : SymbolSet) : Nat := s.effective.size

def isEmpty (s : SymbolSet) : Bool := s.effective.isEmpty

/-- Propose a member; answers whether it is not effective yet. -/
def add (s : SymbolSet) (item : String) : Bool × SymbolSet :=
  (!s.contains item, { s with proposed := s.proposed.insert item })

/-- Make an item a member at once; answers whether it was not effective before. -/
def addNow (s : SymbolSet) (item : String) : Bool × SymbolSet :=
  (!s.contains item,
    { s with proposed := s.proposed.insert item, effective := s.effective.insert item })

/-- Propose that an item leaves; answers whether it is still effective. -/
def remove (s : SymbolSet) (item : String) : Bool × SymbolSet :=
  (s.contains item, { s with proposed := s.proposed.erase item })

/-- Take an item out at once; answers whether it was effective before. -/
def removeNow (s : SymbolSet) (item : String) : Bool × SymbolSet :=
  (s.contains item,
    { s with proposed := s.proposed.erase item, effective := s.effective.erase item })

/-- Offer a tag to the set; answers the tag it carries then. -/
def mark (s : SymbolSet) (tag : Tag) : Tag × SymbolSet :=
  let tag := s.tag.resolve tag
  (tag, { s with tag })

/-- The set after its step was archived. -/
def settled (s : SymbolSet) : SymbolSet :=
  { s with effective := s.proposed, tag := s.tag.decay }

end SymbolSet

end Chronicle
