import Chronicle.Explorer.Pane
import Chronicle.Grammar.Basic
/-!
The pane that shows the grammar as a step left it, every entry in the colour of its tag.

Four lines give the start symbol, the nonterminals, the terminals and a distance; then follows a
line for each left side with all its right sides.
-/

namespace Chronicle.Explorer.GrammarPane

open Chronicle.Screen

def title : String := " Grammar "

/-- The word in front of a list of symbols. -/
def heading (text : String) : Span := ⟨padRight 14 text, .ofFg Theme.comment⟩

def symbolSpan (s : Symbol) : Span :=
  let color := match s.kind with
    | .nonterminal => Theme.nonterminal
    | .terminal => Theme.terminal
  ⟨s.name, Theme.tagged (.ofFg color) s.tag⟩

def symbolLine (text : String) (symbols : List Symbol) : Line where
  spans := heading text :: symbols.flatMap fun s => [symbolSpan s, .raw " "]

def startLine (start : String) : Line where
  spans := [heading "Start", ⟨start, (Style.ofFg Theme.nonterminal).withBold⟩]

/-- What stands between the sides of a rule, and between right sides. -/
def mark (text : String) : Span := ⟨text, .ofFg Theme.comment⟩

def rightSpan (r : Rule) : Span := ⟨r.key.right.text, Theme.tagged (.ofFg Theme.text) r.tag⟩

def leftSpan (g : Grammar) (left : String) : Span :=
  ⟨left, Theme.tagged (.ofFg Theme.nonterminal) (((g.symbol? left).map (·.tag)).getD .none)⟩

/-- The lines of rules that are done, and the one that is being written. -/
structure Draft where
  lines : Array Line := #[]
  /-- The left side whose line is being written. -/
  left : Option String := none
  spans : Array Span := #[]

namespace Draft

/-- End the line that is being written, if there is one. -/
def flush (d : Draft) : Draft :=
  if d.spans.isEmpty then d
  else { d with lines := d.lines.push { spans := d.spans.toList }, spans := #[] }

/-- Write a rule: behind the last one, or on a new line if that had another left side. -/
def write (g : Grammar) (d : Draft) (r : Rule) : Draft :=
  let d :=
    if d.left = some r.key.left then { d with spans := d.spans.push (mark " | ") }
    else
      let d := d.flush
      { d with
        left := some r.key.left
        spans := (d.spans.push (leftSpan g r.key.left)).push (mark " → ") }
  { d with spans := d.spans.push (rightSpan r) }

end Draft

/-- A line for each run of neighbouring rules with one left side. -/
def groupLines (g : Grammar) (rules : List Rule) : List Line :=
  (rules.foldl (Draft.write g) {}).flush.lines.toList

/-- The lines of the pane. -/
def lines (g : Grammar) : List Line :=
  [startLine g.start, symbolLine "Nonterminals" g.nonterminalList,
    symbolLine "Terminals" g.terminalList, .blank] ++ groupLines g g.ruleList

/-- Draw the pane; answers the number of lines it skips. -/
def draw (grid : Grid) (a : Area) (g : Option Grammar) (focused : Bool) (offset : Nat) :
    Nat × Grid :=
  match g with
  | none => (offset, drawRemark grid a title "(no state recorded)" focused)
  | some g =>
    let lines := lines g
    let offset := clampOffset lines.length a.height offset
    (offset, drawLines grid a title lines focused offset)

end Chronicle.Explorer.GrammarPane
