import HaxeBackend.Json.Basic
import HaxeBackend.Text.Hex

/-!
# Writing JSON texts

Documents are written without blanks, members in their order.  In strings the quote, the backslash and the control
characters below the space are escaped, by a letter where there is one; everything else stands for itself.
-/

namespace HaxeBackend.Json

/-- The characters that stand for one character inside a string. -/
def escapeChar (c : Char) : List Char :=
  match c with
  | '"' => ['\\', '"']
  | '\\' => ['\\', '\\']
  | '\n' => ['\\', 'n']
  | '\r' => ['\\', 'r']
  | '\t' => ['\\', 't']
  | c =>
    if c.toNat = 8 then ['\\', 'b']
    else if c.toNat = 12 then ['\\', 'f']
    else if c < ' ' then '\\' :: 'u' :: Text.hexDigits Text.hexDigit 4 c.toNat
    else [c]

/-- A string literal. -/
def quoted (text : String) : String :=
  String.ofList ('"' :: (text.toList.flatMap escapeChar ++ ['"']))

/-- A number with the digits it has. -/
def Numeral.render (n : Json.Numeral) : String :=
  let digits (ds : List Nat) : String := String.join (ds.map toString)
  let fraction := match n.fraction with
    | none => ""
    | some ds => "." ++ digits ds
  let exponent := match n.exponent with
    | none => ""
    | some e => s!"e{e}"
  (if n.negative then "-" else "") ++ digits n.whole ++ fraction ++ exponent

mutual

/-- The text of a document. -/
def render : Json → String
  | .null => "null"
  | .bool true => "true"
  | .bool false => "false"
  | .number n => n.render
  | .string s => quoted (s.getD "")
  | .array items => "[" ++ ",".intercalate (renderItems items) ++ "]"
  | .object members => "\x7b" ++ ",".intercalate (renderMembers members) ++ "\x7d"

def renderItems : List Json → List String
  | [] => []
  | item :: items => item.render :: renderItems items

def renderMembers : List (Option String × Json) → List String
  | [] => []
  | (key, value) :: members => (quoted (key.getD "") ++ ":" ++ value.render) :: renderMembers members

end

end HaxeBackend.Json
