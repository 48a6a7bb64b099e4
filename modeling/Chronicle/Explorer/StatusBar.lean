import Chronicle.Explorer.Pane
/-!
The status bar: position, message and breadcrumbs on the left, the keys on the right.
-/

namespace Chronicle.Explorer.StatusBar

open Chronicle.Screen

/-- What the bar tells. -/
structure Info where
  message : String
  /-- Labels and names from the top down to the active step. -/
  crumbs : List (String × String)
  /-- The place of the active step, counted from zero. -/
  position : Nat
  total : Nat
deriving DecidableEq, Repr

/-- The look of the bar where nothing else is drawn. -/
def bar : Style := Style.plain.withBg Theme.ground

def separator : Style := bar.withFg Theme.comment

/-- Dark text on a coloured ground. -/
def inverse (color : Color) : Style := ⟨some .black, some color, false, false⟩

def badge (text : String) (color : Color) : Span := ⟨text, (inverse color).withBold⟩

/-- The breadcrumbs, each behind its separator. -/
def crumbSpans (crumbs : List (String × String)) : List Span :=
  crumbs.zipIdx.flatMap fun ((label, name), i) =>
    [⟨if i = 0 then "| " else " › ", separator⟩, ⟨label ++ " " ++ name, bar.withFg Theme.label⟩]

def leftLine (info : Info) : Line where
  spans :=
    [badge (" Step " ++ toString (info.position + 1) ++ "/" ++ toString info.total ++ " ")
        Theme.primary,
      ⟨" | ", separator⟩,
      ⟨info.message ++ " ", bar.withFg Theme.text⟩] ++ crumbSpans info.crumbs

/-- A key and what it does. -/
def keySpans (key action : String) : List Span :=
  [⟨key, inverse Theme.comment⟩, ⟨action, bar.withFg Theme.text⟩]

/-- What stands between two keys. -/
def gap : List Span := [⟨"│", separator⟩, ⟨" ", bar.withFg Theme.text⟩]

/-- The mark of the last or the first step. -/
def endSpans (position total : Nat) : List Span :=
  if 0 < total && total ≤ position + 1 then [⟨"│", separator⟩, badge " END " Theme.error]
  else if position = 0 then [⟨"│", separator⟩, badge " START " Theme.success]
  else []

def rightLine (info : Info) : Line where
  spans :=
    keySpans " ←/→ " " step " ++ gap ++ keySpans " ↑/↓ " " sibling " ++ gap ++
      keySpans " ↵ / ⌫ " " end/start " ++ gap ++ keySpans "q" " quit " ++
      endSpans info.position info.total

def draw (grid : Grid) (a : Area) (info : Info) : Grid :=
  let (left, right) := a.splitColumns 55
  (grid.drawParagraph left [leftLine info] bar 0 .left).drawParagraph right [rightLine info] bar 0
    .right

end Chronicle.Explorer.StatusBar
