import HaxeBackend.Decimal.Text
import HaxeBackend.Text.Unprinted
import HaxeBackend.Text.Hex

/-!
# Values at run time

Values as they travel through arrays and variables of any type, and the faults that helpers raise.  A string has an
identity of its own: two strings with the same text are different unless one is a copy of the other.
-/

namespace HaxeBackend.Support

open HaxeBackend.Binary (Number)

inductive Value where
  | null
  | bool (value : Bool)
  | byte (value : Int8)
  | short (value : Int16)
  | char (value : UInt16)
  | int (value : Int32)
  | long (value : Int64)
  | float (bits : UInt32)
  | double (bits : UInt64)
  /-- A text in a cell, which copies share. -/
  | str (cell : Nat) (text : String)
  /-- An object by its identity. -/
  | object (id : UInt32)
  deriving DecidableEq, Repr

namespace Value

/-- The class of the boxed value. -/
def kindName : Value → String
  | null => "null"
  | bool _ => "java.lang.Boolean"
  | byte _ => "java.lang.Byte"
  | short _ => "java.lang.Short"
  | char _ => "java.lang.Character"
  | int _ => "java.lang.Integer"
  | long _ => "java.lang.Long"
  | float _ => "java.lang.Float"
  | double _ => "java.lang.Double"
  | str .. => "java.lang.String"
  | object _ => "java.lang.Object"

def isNull : Value → Bool
  | null => true
  | _ => false

/-- Whether two floating-point numbers are equal: a `nan` equals nothing, and the two zeros are equal. -/
def sameNumber (x y : Number) : Bool := x.compare? y == some .eq

/-- Equality of values of the same kind; strings are compared by text. -/
def same : Value → Value → Bool
  | float a, float b => sameNumber (Binary.single.decode a.toNat) (Binary.single.decode b.toNat)
  | double a, double b => sameNumber (Binary.double.decode a.toNat) (Binary.double.decode b.toNat)
  | str _ a, str _ b => a == b
  | a, b => a == b

/-- Identity: as equality, but strings are compared by cell. -/
def identical : Value → Value → Bool
  | str a _, str b _ => a == b
  | a, b => a.same b

/-! ### How values are shown -/

/-- The characters that show one character between double quotes. -/
def showChar (c : Char) : List Char :=
  match c with
  | '"' => ['\\', '"']
  | '\\' => ['\\', '\\']
  | '\n' => ['\\', 'n']
  | '\r' => ['\\', 'r']
  | '\t' => ['\\', 't']
  | c =>
    if c.toNat = 0 then ['\\', '0']
    else if Text.isUnprinted c then
      let digits := Text.hexDigits Text.hexDigit (Text.hexWidth c.toNat) c.toNat
      '\\' :: 'u' :: '\x7b' :: (digits ++ ['\x7d'])
    else [c]

def showText (text : String) : String :=
  String.ofList ('"' :: (text.toList.flatMap showChar ++ ['"']))

/-- Positional from `10 ^ -4` to below `10 ^ 16`. -/
def numberSpelling : Decimal.Spelling where
  leastPositional := -4
  firstExponential := 16
  nan := "NaN"
  infinite := "inf"
  negativeInfinite := "-inf"

/-- The kind and content of a value. -/
def display : Value → String
  | null => "Null"
  | bool value => s!"Bool({value})"
  | byte value => s!"Byte({value.toInt})"
  | short value => s!"Short({value.toInt})"
  | char value => s!"Char({value.toNat})"
  | int value => s!"Int({value.toInt})"
  | long value => s!"Long({value.toInt})"
  | float bits => s!"Float({numberSpelling.text Binary.single (Binary.single.decode bits.toNat)})"
  | double bits => s!"Double({numberSpelling.text Binary.double (Binary.double.decode bits.toNat)})"
  | str _ text => s!"Str({showText text})"
  | object id => s!"Object(ObjRef({id.toNat}))"

end Value

/-! ### Faults -/

/-- Why a computation stops: a fault of the support library, or a value that was thrown. -/
inductive Fault where
  | divisionByZero
  | classCast (expected found : String)
  | nullPointer
  /-- No method has this number. -/
  | noSuchMethod (id : Int32)
  /-- A method whose body could not be generated was called. -/
  | erroredMethod (message : String)
  | thrown (value : Value)
  deriving DecidableEq, Repr

namespace Fault

def message : Fault → String
  | divisionByZero => "java.lang.ArithmeticException: / by zero"
  | classCast expected found => s!"java.lang.ClassCastException: {found} cannot be cast to {expected}"
  | nullPointer => "java.lang.NullPointerException"
  | noSuchMethod id => s!"no method with id {id.toInt}"
  | erroredMethod message => s!"errored method: {message}"
  | thrown value => s!"uncaught exception: {value.display}"

/-- What a catch clause receives: the thrown value, or the message of a fault as a string in a cell. -/
def caughtValue (cell : Nat) (f : Fault) : Value :=
  match f with
  | thrown value => value
  | f => .str cell f.message

end Fault

/-! ### Unboxing -/

namespace Value

/-- The fault of a value of the wrong kind. -/
def castFault (v : Value) (expected : String) : Fault :=
  if v.isNull then .nullPointer else .classCast expected v.kindName

def unboxBool : Value → Except Fault Bool
  | bool value => .ok value
  | v => .error (v.castFault "java.lang.Boolean")

/-- Any int-like value is an int. -/
def unboxInt : Value → Except Fault Int32
  | byte value => .ok value.toInt32
  | short value => .ok value.toInt32
  | char value => .ok (Int32.ofNat value.toNat)
  | int value => .ok value
  | v => .error (v.castFault "java.lang.Integer")

def unboxLong : Value → Except Fault Int64
  | long value => .ok value
  | v => .error (v.castFault "java.lang.Long")

/-- The same number as a double. -/
def widen (bits : UInt32) : UInt64 :=
  UInt64.ofNat (Binary.double.encode ((Binary.single.decode bits.toNat).convert Binary.double))

def unboxDouble : Value → Except Fault UInt64
  | float bits => .ok (widen bits)
  | double bits => .ok bits
  | v => .error (v.castFault "java.lang.Double")

/-- A string with its cell. -/
def unboxStr : Value → Except Fault (Nat × String)
  | str cell text => .ok (cell, text)
  | v => .error (v.castFault "java.lang.String")

/-- What a value can be unboxed to. -/
inductive UnboxKind where
  | bool
  | int
  | long
  | double
  | str
  deriving DecidableEq, Repr

/-- A value after unboxing and boxing again. -/
def unbox (kind : UnboxKind) (v : Value) : Except Fault Value :=
  match kind with
  | .bool => v.unboxBool.map .bool
  | .int => v.unboxInt.map .int
  | .long => v.unboxLong.map .long
  | .double => v.unboxDouble.map .double
  | .str => v.unboxStr.map fun (cell, text) => .str cell text

end Value

end HaxeBackend.Support
