import Chronicle.Text.Width
/-!
Styles, symbols and styled lines of text.

A style says what it wants to change: it may leave a colour alone, and it can add emphasis but not
take it away.  Laid over each other, the later style wins where both speak.
-/

namespace Chronicle.Screen

/-- A colour of a character or its ground. -/
inductive Color
  /-- What the terminal has by itself. -/
  | reset
  | black
  | rgb (red green blue : UInt8)
deriving DecidableEq, Repr, Inhabited

namespace Color

/-- Two hexadecimal digits. -/
def hexByte (n : UInt8) : List Char := [Nat.digitChar (n.toNat / 16), Nat.digitChar (n.toNat % 16)]

def text : Color → String
  | reset => "reset"
  | black => "black"
  | rgb r g b => String.ofList ('#' :: hexByte r ++ hexByte g ++ hexByte b)

end Color

/-- A change of how cells look. -/
structure Style where
  fg : Option Color := none
  bg : Option Color := none
  bold : Bool := false
  crossed : Bool := false
deriving DecidableEq, Repr, Inhabited

namespace Style

/-- The style that changes nothing. -/
def plain : Style := {}

def ofFg (color : Color) : Style := { fg := some color }

def withFg (s : Style) (color : Color) : Style := { s with fg := some color }

def withBg (s : Style) (color : Color) : Style := { s with bg := some color }

def withBold (s : Style) : Style := { s with bold := true }

def withCrossed (s : Style) : Style := { s with crossed := true }

/-- The look as a text: colours of character and ground, then the emphasis. -/
def text (s : Style) : String :=
  (s.fg.getD .reset).text ++ "/" ++ (s.bg.getD .reset).text ++
    (if s.bold then "/bold" else "") ++ (if s.crossed then "/crossed" else "")

end Style

/-- A piece of text in one style. -/
structure Span where
  text : String
  style : Style
deriving DecidableEq, Repr

/-- A piece of text without a style of its own. -/
def Span.raw (text : String) : Span := ⟨text, .plain⟩

/-- A line of text. -/
structure Line where
  spans : List Span
  /-- The style of the whole line, below those of its spans. -/
  style : Style := .plain
deriving DecidableEq, Repr

/-! ### Symbols -/

/-- What is drawn as one: a cluster of characters, and how many cells it takes.  Some clusters take
none. -/
structure Symbol where
  text : String
  width : Nat
deriving DecidableEq, Repr

namespace Symbol

def blank : Symbol := ⟨" ", 1⟩

instance : Inhabited Symbol := ⟨blank⟩

/-- One of the signs that frames are made of. -/
def sign (c : Char) : Symbol := ⟨String.singleton c, 1⟩

def ofCluster (cs : List Char) : Symbol := ⟨String.ofList cs, Text.width cs⟩

/-- Two symbols in one cell. -/
def append (first second : Symbol) : Symbol :=
  ⟨first.text ++ second.text, first.width + second.width⟩

end Symbol

/-- The symbols of a piece of text.  A line feed by itself is none. -/
def Span.symbols (span : Span) : List Symbol :=
  ((Text.clusters span.text.toList).filter (· != ['\n'])).map .ofCluster

/-- How many cells a piece of text takes. -/
def Span.width (span : Span) : Nat := span.symbols.foldl (fun width s => width + s.width) 0

/-! ### Line breaks -/

/-- The lines of a text.  A carriage return belongs to the break behind a line if the line feed
comes right after it, and is a character of the line otherwise. -/
def textLines : List Char → List (List Char)
  | [] => [[]]
  | '\r' :: '\n' :: rest => [] :: textLines rest
  | '\n' :: rest => [] :: textLines rest
  | c :: rest =>
    match textLines rest with
    | [] => [[c]]
    | line :: lines => (c :: line) :: lines

/-- No line holds a line feed. -/
theorem not_mem_of_mem_textLines {cs line : List Char} (mem : line ∈ textLines cs) :
    '\n' ∉ line := by
  fun_induction textLines cs generalizing line with
  | case1 => simp_all
  | case2 rest ih =>
    rcases List.mem_cons.1 mem with rfl | mem
    · exact List.not_mem_nil
    · exact ih mem
  | case3 rest ih =>
    rcases List.mem_cons.1 mem with rfl | mem
    · exact List.not_mem_nil
    · exact ih mem
  | case4 c rest _ hc _ ih =>
    rw [List.mem_singleton.1 mem]
    simpa using Ne.symm hc
  | case5 c rest _ hc first lines eq ih =>
    rw [eq] at ih
    rcases List.mem_cons.1 mem with rfl | mem
    · have : '\n' ∉ first := ih (List.mem_cons_self ..)
      simp [this, Ne.symm hc]
    · exact ih (List.mem_cons_of_mem _ mem)

namespace Line

/-- A line in one style; where its text is broken, the parts follow each other. -/
def styled (text : String) (style : Style) : Line :=
  ⟨(textLines text.toList).map fun cs => ⟨String.ofList cs, style⟩, .plain⟩

/-- The line without text. -/
def blank : Line := ⟨[], .plain⟩

/-- The symbols of a line, each with the style of its span. -/
def symbols (l : Line) : List (Symbol × Style) :=
  l.spans.flatMap fun span => span.symbols.map (·, span.style)

end Line

/-- A text followed by as many blanks as it lacks to the given number of characters. -/
def padRight (width : Nat) (text : String) : String :=
  text ++ String.ofList (List.replicate (width - text.length) ' ')

end Chronicle.Screen
