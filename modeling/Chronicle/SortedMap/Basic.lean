/-!
Finite maps kept in the order of their keys.

A `SortedMap` is an association list whose keys strictly increase; the order is part of the
type, so two maps with the same look-ups are equal as values and everything that walks a map
walks it in key order.  `SortedSet` is the same for bare elements.  Keys are compared by their
`Ord` instance; for texts that is the order by code point.
-/

namespace Chronicle

/-- A map from `κ` to `α`, stored with strictly increasing keys. -/
structure SortedMap (κ α : Type) [Ord κ] where
  /-- The pairs in the order of their keys. -/
  toList : List (κ × α)
  /-- Each key is below all later ones. -/
  sorted : toList.Pairwise fun a b => compare a.1 b.1 = .lt

namespace SortedMap

variable {κ α β : Type} [Ord κ]

instance [DecidableEq κ] [DecidableEq α] : DecidableEq (SortedMap κ α) := fun a b =>
  if h : a.toList = b.toList then
    isTrue (by cases a; cases b; cases h; rfl)
  else
    isFalse fun hab => h (hab ▸ rfl)

/-- The map without entries. -/
def empty : SortedMap κ α := ⟨[], .nil⟩

instance : EmptyCollection (SortedMap κ α) := ⟨empty⟩

instance : Inhabited (SortedMap κ α) := ⟨empty⟩

def size (m : SortedMap κ α) : Nat := m.toList.length

def isEmpty (m : SortedMap κ α) : Bool := m.toList.isEmpty

/-- The keys in increasing order. -/
def keys (m : SortedMap κ α) : List κ := m.toList.map (·.1)

/-- The values in the order of their keys. -/
def values (m : SortedMap κ α) : List α := m.toList.map (·.2)

/-- Look a key up in a list of pairs. -/
def lookup (key : κ) : List (κ × α) → Option α
  | [] => none
  | (k, value) :: rest => if compare key k = .eq then some value else lookup key rest

/-- The value stored under `key`. -/
def get? (m : SortedMap κ α) (key : κ) : Option α := lookup key m.toList

def contains (m : SortedMap κ α) (key : κ) : Bool := (m.get? key).isSome

/-- Put a pair at its place, in exchange for the pair with the same key if there is one. -/
def insertPair (key : κ) (value : α) : List (κ × α) → List (κ × α)
  | [] => [(key, value)]
  | (k, v) :: rest =>
    match compare key k with
    | .lt => (key, value) :: (k, v) :: rest
    | .eq => (key, value) :: rest
    | .gt => (k, v) :: insertPair key value rest

theorem fst_of_mem_insertPair {key : κ} {value : α} {pair : κ × α} :
    ∀ {l : List (κ × α)}, pair ∈ insertPair key value l → pair.1 = key ∨ pair ∈ l
  | [], h => by simp_all [insertPair]
  | (k, v) :: rest, h => by
    simp only [insertPair] at h
    split at h
    · rcases List.mem_cons.1 h with rfl | h
      · exact .inl rfl
      · exact .inr h
    · rcases List.mem_cons.1 h with rfl | h
      · exact .inl rfl
      · exact .inr (List.mem_cons_of_mem _ h)
    · rcases List.mem_cons.1 h with rfl | h
      · exact .inr List.mem_cons_self
      · exact (fst_of_mem_insertPair h).imp id (List.mem_cons_of_mem _)

theorem insertPair_sorted [Std.TransOrd κ] (key : κ) (value : α) :
    ∀ {l : List (κ × α)}, l.Pairwise (fun a b => compare a.1 b.1 = .lt) →
      (insertPair key value l).Pairwise fun a b => compare a.1 b.1 = .lt
  | [], _ => by simp [insertPair]
  | (k, v) :: rest, h => by
    have hk := List.pairwise_cons.1 h
    simp only [insertPair]
    split
    · next hlt =>
      refine List.pairwise_cons.2 ⟨fun pair hpair => ?_, h⟩
      rcases List.mem_cons.1 hpair with rfl | hpair
      · exact hlt
      · exact Std.TransCmp.lt_trans hlt (hk.1 pair hpair)
    · next heq =>
      exact List.pairwise_cons.2
        ⟨fun pair hpair => Std.TransCmp.lt_of_eq_of_lt heq (hk.1 pair hpair), hk.2⟩
    · next hgt =>
      refine List.pairwise_cons.2 ⟨fun pair hpair => ?_, insertPair_sorted key value hk.2⟩
      rcases fst_of_mem_insertPair hpair with heq | hpair
      · rw [heq]; exact Std.OrientedCmp.lt_of_gt hgt
      · exact hk.1 pair hpair

/-- Store `value` under `key`, in exchange for what was there. -/
def insert [Std.TransOrd κ] (m : SortedMap κ α) (key : κ) (value : α) : SortedMap κ α :=
  ⟨insertPair key value m.toList, insertPair_sorted key value m.sorted⟩

/-- Keep the entries that satisfy `p`. -/
def filter (m : SortedMap κ α) (p : κ → α → Bool) : SortedMap κ α :=
  ⟨m.toList.filter fun pair => p pair.1 pair.2, m.sorted.filter _⟩

/-- Drop the entry stored under `key`, if any. -/
def erase (m : SortedMap κ α) (key : κ) : SortedMap κ α :=
  m.filter fun k _ => compare key k != .eq

/-- Change every value, with its key in sight. -/
def mapValues (m : SortedMap κ α) (f : κ → α → β) : SortedMap κ β :=
  ⟨m.toList.map fun pair => (pair.1, f pair.1 pair.2),
    List.pairwise_map.2 m.sorted⟩

/-- Change the value stored under `key`, if any. -/
def modify (m : SortedMap κ α) (key : κ) (f : α → α) : SortedMap κ α :=
  m.mapValues fun k value => if compare key k = .eq then f value else value

/-- The map that holds the pairs of a list; of two pairs with one key the later counts. -/
def ofList [Std.TransOrd κ] (pairs : List (κ × α)) : SortedMap κ α :=
  pairs.foldl (fun m pair => m.insert pair.1 pair.2) empty

end SortedMap

/-- A finite set of `κ`, stored in increasing order. -/
structure SortedSet (κ : Type) [Ord κ] where
  /-- The elements as keys. -/
  map : SortedMap κ Unit
deriving DecidableEq

namespace SortedSet

variable {κ : Type} [Ord κ]

/-- The set without elements. -/
def empty : SortedSet κ := ⟨.empty⟩

instance : EmptyCollection (SortedSet κ) := ⟨empty⟩

instance : Inhabited (SortedSet κ) := ⟨empty⟩

/-- The elements in increasing order. -/
def toList (s : SortedSet κ) : List κ := s.map.keys

def size (s : SortedSet κ) : Nat := s.map.size

def isEmpty (s : SortedSet κ) : Bool := s.map.isEmpty

def contains (s : SortedSet κ) (x : κ) : Bool := s.map.contains x

def insert [Std.TransOrd κ] (s : SortedSet κ) (x : κ) : SortedSet κ := ⟨s.map.insert x ()⟩

def erase (s : SortedSet κ) (x : κ) : SortedSet κ := ⟨s.map.erase x⟩

def insertAll [Std.TransOrd κ] (s : SortedSet κ) (xs : List κ) : SortedSet κ :=
  xs.foldl insert s

def ofList [Std.TransOrd κ] (xs : List κ) : SortedSet κ := empty.insertAll xs

end SortedSet

end Chronicle
