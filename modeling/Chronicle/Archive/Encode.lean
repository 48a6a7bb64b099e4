import Chronicle.Json.Basic
import Chronicle.Snapshot
/-!
Archived data as JSON.

Objects with fixed members list them in a fixed order; maps list their keys in order.  The kind
of a structure is written beside its other members, under `type`.
-/

namespace Chronicle

/-- A map as an object. -/
def SortedMap.toJson {α : Type} (value : α → Json) (m : SortedMap String α) : Json :=
  .object (m.toList.map fun (key, a) => (key, value a))

def Tag.toJson (tag : Tag) : Json := .string tag.name

def PlainGrammar.toJson (g : PlainGrammar) : Json :=
  .object [
    ("N", .strings g.nonterminals),
    ("T", .strings g.terminals),
    ("P", g.rules.toJson .strings),
    ("S", .string g.start)]

def GrammarData.toJson (g : GrammarData) : Json :=
  .object [
    ("N", g.nonterminals.toJson Tag.toJson),
    ("T", g.terminals.toJson Tag.toJson),
    ("P", g.rules.toJson (·.toJson Tag.toJson)),
    ("S", .string g.start)]

def CellData.toJson (cell : CellData) : Json :=
  .object [("tag", cell.tag.toJson), ("set", .strings cell.members)]

/-- The name of a kind in archived data. -/
def StructureKind.typeName : StructureKind → String
  | symbolSet => "symbol_set"
  | table => "table"
  | symbolMapping => "symbol_mapping"
  | stack => "stack"

namespace BodyData

def kind : BodyData → StructureKind
  | symbolSet .. => .symbolSet
  | table .. => .table
  | symbolMapping _ => .symbolMapping
  | stack _ => .stack

/-- The members of a structure's object that hold its content. -/
def members : BodyData → List (String × Json)
  | symbolSet items tag => [("set", .strings items), ("set_tag", tag.toJson)]
  | table rows columns cells =>
    [("rows", rows.toJson .string), ("columns", columns.toJson .string),
      ("cells", cells.toJson (·.toJson CellData.toJson))]
  | symbolMapping pairs =>
    [("pairs", .array (pairs.map fun (source, target) => .strings [source, target]))]
  | stack items => [("items", .strings items)]

end BodyData

def StructureData.toJson (s : StructureData) : Json :=
  .object ([
    ("id", .string s.id),
    ("name", .string s.name),
    ("tag", s.tag.toJson),
    ("priority", .number (.ofInt s.priority.toInt)),
    ("type", .string s.body.kind.typeName)] ++ s.body.members)

def SnapshotData.toJson (s : SnapshotData) : Json :=
  .object [
    ("grammar", s.grammar.toJson),
    ("structures", s.structures.toJson StructureData.toJson)]

end Chronicle
