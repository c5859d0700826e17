import HaxeBackend.Text.Hex

/-!
# Encodings of names

An identifier keeps ASCII letters and digits.  An escape is `_` and a lower-case letter: `_u` for `_`, `_d` for `$`,
`_n` in front of a leading digit, `_x` and six hexadecimal digits for any other character.  Descriptors start with
`_` followed by an upper-case letter or another `_`, so the first such pair ends the name of a method.  Inside
descriptors and owner paths the escapes are `__` for `_`, `_S` for `/` and `.`, `_D` for `$`, `_E` for the
terminating `;`, and `_X` with six digits.
-/

namespace HaxeBackend.Naming

def isAsciiDigit (c : Char) : Bool := '0' ≤ c && c ≤ '9'

def isAsciiUpper (c : Char) : Bool := 'A' ≤ c && c ≤ 'Z'

def isAsciiLower (c : Char) : Bool := 'a' ≤ c && c ≤ 'z'

def isAsciiAlnum (c : Char) : Bool := isAsciiDigit c || isAsciiUpper c || isAsciiLower c

/-- An escape by code point. -/
def hexEscape (tag c : Char) : List Char :=
  '_' :: tag :: Text.hexDigits Text.hexDigit 6 c.toNat

/-! ### Identifiers -/

def encodeIdentChar (c : Char) : List Char :=
  if isAsciiAlnum c then [c]
  else if c = '_' then ['_', 'u']
  else if c = '$' then ['_', 'd']
  else hexEscape 'x' c

/-- Whether a name needs the mark in front: it is empty or starts with a digit. -/
def needsMark : List Char → Bool
  | [] => true
  | c :: _ => isAsciiDigit c

/-- The encoding of a source identifier. -/
def encodeIdent (text : List Char) : List Char :=
  (if needsMark text then ['_', 'n'] else []) ++ text.flatMap encodeIdentChar

/-! ### Paths and descriptors -/

def encodePathChar (c : Char) : List Char :=
  if isAsciiAlnum c then [c]
  else if c = '_' then ['_', '_']
  else if c = '/' ∨ c = '.' then ['_', 'S']
  else if c = '$' then ['_', 'D']
  else hexEscape 'X' c

/-- The encoding of a class path in dotted or slashed form. -/
def encodePath (path : List Char) : List Char := path.flatMap encodePathChar

def encodeSignatureChar (c : Char) : List Char :=
  if c = '(' ∨ c = ')' then ['_']
  else if c = '[' then ['A']
  else if isAsciiAlnum c then [c]
  else hexEscape 'X' c

/-- The encoding of a descriptor; `inPath` is set between `L` and its `;`. -/
def mangle (inPath : Bool) : List Char → List Char
  | [] => if inPath then ['_', 'E'] else []
  | c :: cs =>
    if inPath then
      if c = ';' then '_' :: 'E' :: mangle false cs else encodePathChar c ++ mangle true cs
    else if c = 'L' then 'L' :: mangle true cs
    else encodeSignatureChar c ++ mangle false cs

/-! ### Lossy names -/

/-- Replaces every character that an identifier cannot have.  Such names are told apart afterwards. -/
def sanitize (text : List Char) : List Char :=
  let kept := text.map fun c => if isAsciiAlnum c || c = '_' then c else '_'
  if needsMark kept then '_' :: kept else kept

end HaxeBackend.Naming
