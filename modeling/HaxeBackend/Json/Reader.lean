import HaxeBackend.Json.Token

/-!
# Reading JSON texts

The tokens of a text are read one at a time.  A `Position` says what may come next and holds the containers that
are still open, innermost first; what a container has so far is kept in reverse.
-/

namespace HaxeBackend.Json

/-- An open container around the value being read. -/
inductive Frame where
  | array (done : List Json)
  | object (done : List (Option String × Json)) (key : Option String)

/-- What may come next. -/
inductive Position where
  | value (outer : List Frame)
  | firstItem (outer : List Frame)
  | afterItem (done : List Json) (outer : List Frame)
  | firstKey (outer : List Frame)
  | nextKey (done : List (Option String × Json)) (outer : List Frame)
  | afterKey (done : List (Option String × Json)) (key : Option String) (outer : List Frame)
  | afterMember (done : List (Option String × Json)) (outer : List Frame)
  | finished (document : Json)

namespace Position

/-- A complete value inside the open containers. -/
def complete (value : Json) : List Frame → Position
  | [] => .finished value
  | .array done :: outer => .afterItem (value :: done) outer
  | .object done key :: outer => .afterMember ((key, value) :: done) outer

/-- The start of a value. -/
def start (outer : List Frame) : Token → Option Position
  | .openObject => some (.firstKey outer)
  | .openArray => some (.firstItem outer)
  | .null => some (complete .null outer)
  | .bool b => some (complete (.bool b) outer)
  | .number n => some (complete (.number n) outer)
  | .string s => some (complete (.string s) outer)
  | _ => none

def step : Position → Token → Option Position
  | .value outer, token => start outer token
  | .firstItem outer, .closeArray => some (complete (.array []) outer)
  | .firstItem outer, token => start (.array [] :: outer) token
  | .afterItem done outer, .comma => some (.value (.array done :: outer))
  | .afterItem done outer, .closeArray => some (complete (.array done.reverse) outer)
  | .firstKey outer, .closeObject => some (complete (.object []) outer)
  | .firstKey outer, .string key => some (.afterKey [] key outer)
  | .nextKey done outer, .string key => some (.afterKey done key outer)
  | .afterKey done key outer, .colon => some (.value (.object done key :: outer))
  | .afterMember done outer, .comma => some (.nextKey done outer)
  | .afterMember done outer, .closeObject => some (complete (.object done.reverse) outer)
  | _, _ => none

end Position

/-- The document of a text: one value and nothing else. -/
def parse? (text : String) : Option Json := do
  let tokens ← Token.scan text.toList
  match ← tokens.foldlM Position.step (.value []) with
  | .finished document => some document
  | _ => none

end HaxeBackend.Json
