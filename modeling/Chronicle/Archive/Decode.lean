import Chronicle.Archive.Encode
import Chronicle.Json.Parser
import Chronicle.Json.Range
/-!
Archived data from JSON.

Objects with fixed members may hold others, which are ignored; a fixed member may not occur twice.
In a map a later member takes the place of an earlier one with the same key.  `null` never stands
for a missing value.

A structure is read in two parts: its own members, and the members that belong to its content.
As the kind may come last, the second part has to be kept until all members were seen, and what
is kept has to be a value of its own: texts with no half characters, numbers within the range of
double precision, and no deeper nesting than a reader allows.
-/

namespace Chronicle

namespace Json

variable {α β : Type}

/-! ### Values -/

def toString? : Json → Option String
  | string s => some s
  | _ => none

def toList? (item : Json → Option α) : Json → Option (List α)
  | array items => items.mapM item
  | _ => none

def toStrings? : Json → Option (List String) := toList? toString?

/-- Two texts. -/
def toPair? : Json → Option (String × String)
  | array [string a, string b] => some (a, b)
  | _ => none

/-- A map of values that are all read by `value`. -/
def toMap? (value : Json → Option α) : Json → Option (SortedMap String α)
  | object members => do
    let pairs ← members.mapM fun (key, json) => (value json).map (key, ·)
    return .ofList pairs
  | _ => none

/-- An integer that fits into 32 bits. -/
def toInt32? : Json → Option Int32
  | number n => do
    let i ← n.toInt?
    if (Int32.ofInt i).toInt = i then return .ofInt i else none
  | _ => none

/-- A tag by its name, or by an object with the name as its only key and an empty value. -/
def toTag? (isEmpty : Json → Bool) : Json → Option Tag
  | string name => Tag.ofName? name
  | object [(name, value)] => if isEmpty value then Tag.ofName? name else none
  | _ => none

def isNull : Json → Bool
  | null => true
  | _ => false

/-- A tag as it stands in a map or as a structure's own tag. -/
def toOwnTag? : Json → Option Tag := toTag? isNull

/-! ### Fixed members -/

/-- The value of a fixed member: `none` if the key occurs twice, and an inner `none` if it does
not occur. -/
def fixed? (members : List (String × Json)) (key : String) : Option (Option Json) :=
  match members.filter (·.1 == key) with
  | [] => some none
  | [(_, value)] => some (some value)
  | _ => none

/-- The value of a member that has to be there. -/
def required? (read : Json → Option α) (members : List (String × Json)) (key : String) :
    Option α := do
  read (← (← fixed? members key))

/-- The value of a member that has a default. -/
def optional? (read : Json → Option α) (default : α) (members : List (String × Json))
    (key : String) : Option α := do
  match ← fixed? members key with
  | some value => read value
  | none => return default

/-! ### Kept values -/

mutual

/-- Can a value be kept that may hold `room` levels of containers? -/
def isKeepable (room : Nat) : Json → Bool
  | null | bool _ | string _ => true
  | number n => n.inRange
  | array items => decide (0 < room) && areKeepable (room - 1) items
  | object members => decide (0 < room) && membersKeepable (room - 1) members
  | illFormed => false

def areKeepable (room : Nat) : List Json → Bool
  | [] => true
  | item :: items => isKeepable room item && areKeepable room items

def membersKeepable (room : Nat) : List (String × Json) → Bool
  | [] => true
  | (_, value) :: members => isKeepable room value && membersKeepable room members

end

end Json

/-! ### Grammars -/

/-- A grammar of four members, each by its reader; it may also be the list of the four. -/
def Json.toFour? {α β γ : Type} (n : Json → Option α) (t : Json → Option β) (p : Json → Option γ)
    (noN : α) (noT : β) (noP : γ) : Json → Option (α × β × γ × String)
  | object members => do
    return (← optional? n noN members "N", ← optional? t noT members "T",
      ← optional? p noP members "P", ← required? toString? members "S")
  | array [a, b, c, d] => do return (← n a, ← t b, ← p c, ← d.toString?)
  | _ => none

def PlainGrammar.ofJson? (json : Json) : Option PlainGrammar := do
  let (nonterminals, terminals, rules, start) ←
    json.toFour? Json.toStrings? Json.toStrings? (Json.toMap? Json.toStrings?) [] [] .empty
  return { nonterminals, terminals, rules, start }

def GrammarData.ofJson? (json : Json) : Option GrammarData := do
  let tags := Json.toMap? Json.toOwnTag?
  let (nonterminals, terminals, rules, start) ←
    json.toFour? tags tags (Json.toMap? tags) .empty .empty .empty
  return { nonterminals, terminals, rules, start }

/-! ### Structures -/

/-- A tag inside the content of a structure; there an empty object is as good as `null`. -/
def Json.toInnerTag? : Json → Option Tag := toTag? fun
  | null => true
  | object [] => true
  | _ => false

def CellData.ofJson? : Json → Option CellData
  | .object members => do
    return {
      tag := ← Json.optional? Json.toInnerTag? .none members "tag"
      members := ← Json.required? Json.toStrings? members "set" }
  | .array [tag, items] => do
    return { tag := ← tag.toInnerTag?, members := ← items.toStrings? }
  | _ => none

/-- All kinds of structures; a kind may also be given by its place in this list. -/
def StructureKind.all : List StructureKind := [symbolSet, table, symbolMapping, stack]

def StructureKind.ofJson? : Json → Option StructureKind
  | .string name => all.find? (·.typeName == name)
  | .number (.integer false i) => all[i]?
  | _ => none

/-- The content of a structure of the given kind from the members of its object. -/
def BodyData.ofMembers? (members : List (String × Json)) : StructureKind → Option BodyData
  | .symbolSet => do
    return .symbolSet (← Json.required? Json.toStrings? members "set")
      (← Json.optional? Json.toInnerTag? .none members "set_tag")
  | .table => do
    let names := Json.toMap? Json.toString?
    return .table (← Json.required? names members "rows") (← Json.required? names members "columns")
      (← Json.required? (Json.toMap? (Json.toMap? CellData.ofJson?)) members "cells")
  | .symbolMapping => do
    return .symbolMapping (← Json.required? (Json.toList? Json.toPair?) members "pairs")
  | .stack => do
    return .stack (← Json.required? Json.toStrings? members "items")

/-- The members of a structure's object that do not belong to its content. -/
def StructureData.ownKeys : List String := ["id", "name", "tag", "priority"]

/-- A structure whose object may hold `room` more levels of containers. -/
def StructureData.ofJson? (room : Nat) : Json → Option StructureData
  | .object members => do
    let kept := members.filter fun (key, _) => !ownKeys.contains key
    guard (Json.membersKeepable room kept)
    let kind ← Json.required? StructureKind.ofJson? kept "type"
    return {
      id := ← Json.required? Json.toString? members "id"
      name := ← Json.required? Json.toString? members "name"
      tag := ← Json.optional? Json.toOwnTag? .none members "tag"
      priority := ← Json.optional? Json.toInt32? 1 members "priority"
      body := ← BodyData.ofMembers? kept kind }
  | _ => none

/-- How many levels of containers a text may hold. -/
def Json.maxNesting : Nat := 127

/-- A snapshot, which may also be the list of its grammar and its structures. -/
def SnapshotData.ofJson? (json : Json) : Option SnapshotData :=
  let structures := Json.toMap? (StructureData.ofJson? (Json.maxNesting - 3))
  match json with
  | .object members => do
    return {
      grammar := ← Json.required? GrammarData.ofJson? members "grammar"
      structures := ← Json.optional? structures .empty members "structures" }
  | .array [grammar] => do
    return { grammar := ← GrammarData.ofJson? grammar, structures := .empty }
  | .array [grammar, bag] => do
    return { grammar := ← GrammarData.ofJson? grammar, structures := ← structures bag }
  | _ => none

end Chronicle
