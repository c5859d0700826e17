/-!
# JSON documents

A document keeps what its text says: the order of members, repeated keys, and how each number is written.  A
string whose escapes leave a surrogate unpaired denotes no text; it is kept as `none`, so that readers can refuse
it exactly where they look at it.
-/

namespace HaxeBackend

/-- A number as written, by its decimal digits. -/
structure Json.Numeral where
  negative : Bool
  whole : List Nat
  fraction : Option (List Nat)
  exponent : Option Int
  deriving DecidableEq, Repr

/-- A JSON document. -/
inductive Json where
  | null
  | bool (value : Bool)
  | number (value : Json.Numeral)
  | string (text : Option String)
  | array (items : List Json)
  | object (members : List (Option String × Json))

namespace Json

/-- A string that denotes its text. -/
def text (s : String) : Json := .string (some s)

/-- A whole number. -/
def int (value : Int) : Json :=
  .number
    { negative := value < 0
      whole := (Nat.toDigits 10 value.natAbs).map fun c => c.toNat - '0'.toNat
      fraction := none
      exponent := none }

/-- An object without repeated keys. -/
def record (members : List (String × Json)) : Json :=
  .object (members.map fun (key, value) => (some key, value))

/-- The last value given for a key. -/
def find? (key : String) : Json → Option Json
  | .object members => (members.reverse.find? fun (k, _) => k == some key).map Prod.snd
  | _ => none

def text? : Json → Option String
  | .string s => s
  | _ => none

def bool? : Json → Option Bool
  | .bool b => some b
  | _ => none

def items? : Json → Option (List Json)
  | .array items => some items
  | _ => none

end Json

end HaxeBackend
