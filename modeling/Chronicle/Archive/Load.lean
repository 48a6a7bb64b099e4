import Chronicle.Archive.Decode
/-!
Loading a grammar from the text of a file.

The text may hold the plain form or the tagged one; the plain form is tried first.  Once a form
fits, what the grammar is refused for is final.
-/

namespace Chronicle

/-- Why a text is not loaded. -/
inductive LoadError
  /-- The text is not JSON, or fits neither form of a grammar. -/
  | notGrammar
  | engine (error : EngineError)
deriving DecidableEq, Repr

def LoadError.message : LoadError → String
  | notGrammar => "the text is not a grammar in JSON"
  | engine error => error.message

namespace Grammar

/-- The grammar in a JSON value, plain or tagged. -/
def ofJson (json : Json) : Except LoadError Grammar :=
  match PlainGrammar.ofJson? json with
  | some plain => (ofPlain plain).mapError .engine
  | none =>
    match GrammarData.ofJson? json with
    | some data => (ofData data).mapError .engine
    | none => .error .notGrammar

/-- The grammar in a text. -/
def load (text : String) : Except LoadError Grammar :=
  match Json.ofText? text with
  | some json => ofJson json
  | none => .error .notGrammar

end Grammar

end Chronicle
