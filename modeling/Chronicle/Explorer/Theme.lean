import Chronicle.Screen.Style
import Chronicle.Tag
/-!
The colours of the explorer.
-/

namespace Chronicle.Explorer

open Chronicle.Screen

namespace Theme

def text : Color := .rgb 205 214 244
def primary : Color := .rgb 137 180 250
def secondary : Color := .rgb 250 179 135
def comment : Color := .rgb 108 112 134
def success : Color := .rgb 166 227 161
def error : Color := .rgb 243 139 168
def focusedBorder : Color := .rgb 249 226 175
def normalBorder : Color := .rgb 108 112 134
/-- The ground of the active step and of the status bar. -/
def ground : Color := .rgb 50 50 70
def label : Color := .rgb 148 226 213
def nonterminal : Color := .rgb 137 180 250
def terminal : Color := .rgb 205 214 244
def attention : Color := .rgb 249 226 175
def special : Color := .rgb 245 194 231
/-- The colour of what was important a step ago. -/
def transferred : Color := .rgb 180 165 120

/-- The colour that a tag gives its entry; without one the entry keeps its own. -/
def tagColor? : Tag → Option Color
  | .none => none
  | .new => some success
  | .duplicate | .replaced => some secondary
  | .removed => some error
  | .attentionNow | .attentionPersistent | .attentionWillTransfer => some attention
  | .attentionWasSet => some transferred
  | .specialPersistent | .specialTemporary => some special

/-- The look of a tagged entry; what is removed is crossed out. -/
def tagged (base : Style) (tag : Tag) : Style :=
  let style := (tagColor? tag).elim base base.withFg
  if tag = .removed then style.withCrossed else style

/-- The look of the frame around a pane. -/
def border (focused : Bool) : Style :=
  if focused then (Style.ofFg focusedBorder).withBold else Style.ofFg normalBorder

end Theme

end Chronicle.Explorer
