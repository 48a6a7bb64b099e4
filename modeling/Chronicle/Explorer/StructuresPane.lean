import Chronicle.Explorer.Pane
import Chronicle.Structure.Bag
/-!
The pane that shows the structures of a state.
-/

namespace Chronicle.Explorer.StructuresPane

open Chronicle.Screen

def title : String := " Structures "

/-- A set by its effective members. -/
def setText (s : SymbolSet) : String := "\x7b " ++ ", ".intercalate s.items ++ " \x7d"

/-- The look of a structure's name. -/
def nameStyle (tag : Tag) : Style :=
  (Style.ofFg ((Theme.tagColor? tag).getD Theme.primary)).withBold

def detail : Style := .ofFg Theme.comment

def content : Style := .ofFg Theme.text

/-- The line of a row of a table. -/
def rowLine (t : Table) (row : String × String) : Line where
  spans := ⟨"  " ++ padRight 8 row.2, detail⟩ :: t.columns.toList.flatMap fun column =>
    [⟨column.2 ++ ": ", detail⟩,
      ⟨((t.cell? row.1 column.1).map setText).getD "" ++ "  ", content⟩]

/-- The lines of a structure. -/
def structureLines (s : Structure) : List Line :=
  let style := nameStyle s.tag
  match s.body with
  | .symbolSet set => [{ spans := [⟨s.name ++ " = ", style⟩, ⟨setText set, content⟩] }]
  | .table t => .styled s.name style :: t.rows.toList.map (rowLine t)
  | .symbolMapping m =>
    .styled s.name style ::
      m.pairs.map fun (source, target) => .styled ("  " ++ source ++ " ↦ " ++ target) detail
  | .stack stack =>
    [{ spans := [⟨s.name ++ " ", style⟩, ⟨"[" ++ " ".intercalate stack.items ++ "⟩", content⟩] }]

/-- The lines of the pane. -/
def lines (bag : Bag) : List Line := bag.toList.flatMap structureLines

/-- Draw the pane; answers the number of lines it skips. -/
def draw (grid : Grid) (a : Area) (bag : Option Bag) (focused : Bool) (offset : Nat) :
    Nat × Grid :=
  match bag.filter (!·.isEmpty) with
  | none => (offset, drawRemark grid a title "(no structures)" focused)
  | some bag =>
    let lines := lines bag
    let offset := clampOffset lines.length a.height offset
    (offset, drawLines grid a title lines focused offset)

end Chronicle.Explorer.StructuresPane
