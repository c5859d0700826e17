import HaxeBackend.Support.Value

/-!
# Numeric helpers

What the numeric helpers compute.  An int of the target may be wider than 32 bits until it is stored, so ints are
unbounded here: the narrowing helpers take any int, and the others take ints that fit 32 bits.
-/

namespace HaxeBackend.Support

/-- An argument or result of a helper. -/
inductive Operand where
  | int (value : Int)
  | long (value : Int64)
  | single (bits : UInt32)
  | double (bits : UInt64)
  | bool (value : Bool)
  deriving DecidableEq, Repr

namespace Num

/-! ### Narrowing -/

/-- Truncation to 32 bits. -/
def i (x : Int) : Int32 := Int32.ofInt x

/-- Truncation to 8 bits. -/
def i2b (x : Int) : Int32 := (Int8.ofInt x).toInt32

/-- Truncation to 16 bits. -/
def i2s (x : Int) : Int32 := (Int16.ofInt x).toInt32

/-- Truncation to 16 bits without a sign. -/
def i2c (x : Int) : Int32 := Int32.ofInt (x % 65536)

/-! ### 32-bit arithmetic -/

def imul (a b : Int32) : Int32 := a * b

/-- Division toward zero; the smallest int divided by -1 is itself. -/
def idiv (a b : Int32) : Except Fault Int32 := if b = 0 then .error .divisionByZero else .ok (a / b)

/-- The remainder has the sign of the dividend. -/
def irem (a b : Int32) : Except Fault Int32 := if b = 0 then .error .divisionByZero else .ok (a % b)

/-- The low five bits of the distance count. -/
def ishl (a b : Int32) : Int32 := a <<< b

/-- The sign fills the high bits. -/
def ishr (a b : Int32) : Int32 := a >>> b

/-- Zeros fill the high bits. -/
def iushr (a b : Int32) : Int32 := (a.toUInt32 >>> b.toUInt32).toInt32

/-! ### 64-bit arithmetic -/

/-- The long with these halves. -/
def lnew (high low : Int32) : Int64 := (high.toInt64 <<< 32) ||| low.toUInt32.toUInt64.toInt64

def ladd (a b : Int64) : Int64 := a + b

def lsub (a b : Int64) : Int64 := a - b

def lmul (a b : Int64) : Int64 := a * b

def ldiv (a b : Int64) : Except Fault Int64 := if b = 0 then .error .divisionByZero else .ok (a / b)

def lrem (a b : Int64) : Except Fault Int64 := if b = 0 then .error .divisionByZero else .ok (a % b)

def land (a b : Int64) : Int64 := a &&& b

def lor (a b : Int64) : Int64 := a ||| b

def lxor (a b : Int64) : Int64 := a ^^^ b

def lneg (a : Int64) : Int64 := -a

/-- The low six bits of the distance count. -/
def lshl (a : Int64) (b : Int32) : Int64 := a <<< b.toInt64

def lshr (a : Int64) (b : Int32) : Int64 := a >>> b.toInt64

def lushr (a : Int64) (b : Int32) : Int64 := (a.toUInt64 >>> b.toInt64.toUInt64).toInt64

/-! ### Comparisons -/

/-- -1, 0 or 1. -/
def sign : Ordering → Int32
  | .lt => -1
  | .eq => 0
  | .gt => 1

def lcmp (a b : Int64) : Int32 := sign (compare a.toInt b.toInt)

def cmp (a b : Int) : Int32 := sign (compare a b)

/-- Compares doubles; a pair without an order gives `unordered`. -/
def compareDoubles (unordered : Int32) (a b : UInt64) : Int32 :=
  match (Binary.double.decode a.toNat).compare? (Binary.double.decode b.toNat) with
  | some o => sign o
  | none => unordered

def cmpl (a b : UInt64) : Int32 := compareDoubles (-1) a b

def cmpg (a b : UInt64) : Int32 := compareDoubles 1 a b

/-! ### Conversions -/

def intOf (x : Binary.Number) : Int32 := Int32.ofInt (x.truncate (-2147483648) 2147483647)

def longOf (x : Binary.Number) : Int64 := Int64.ofInt (x.truncate (-9223372036854775808) 9223372036854775807)

/-- Drops the fraction and stops at the bounds; no number is zero. -/
def f2i (x : UInt32) : Int32 := intOf (Binary.single.decode x.toNat)

def d2i (x : UInt64) : Int32 := intOf (Binary.double.decode x.toNat)

def f2j (x : UInt32) : Int64 := longOf (Binary.single.decode x.toNat)

def d2j (x : UInt64) : Int64 := longOf (Binary.double.decode x.toNat)

def l2i (x : Int64) : Int32 := x.toInt32

def i2j (x : Int32) : Int64 := x.toInt64

def j2f (x : Int64) : UInt32 := UInt32.ofNat (Binary.single.encode (Binary.single.ofInt x.toInt))

def j2d (x : Int64) : UInt64 := UInt64.ofNat (Binary.double.encode (Binary.double.ofInt x.toInt))

/-- Rounds to single precision. -/
def d2f (x : UInt64) : UInt32 :=
  UInt32.ofNat (Binary.single.encode ((Binary.double.decode x.toNat).convert Binary.single))

def z2i (x : Bool) : Int32 := if x then 1 else 0

def i2z (x : Int32) : Bool := x != 0

/-- Both arguments are evaluated already. -/
def zand (a b : Bool) : Bool := a && b

def zor (a b : Bool) : Bool := a || b

/-! ### Helpers by name -/

/-- A target int that fits 32 bits. -/
def int32? (x : Int) : Option Int32 :=
  if -2147483648 ≤ x ∧ x ≤ 2147483647 then some (Int32.ofInt x) else none

/-- A target int holds a 32-bit result. -/
def ofInt32 (x : Int32) : Operand := .int x.toInt

def narrowing? : String → Option (Int → Int32)
  | "i" => some i
  | "i2b" => some i2b
  | "i2s" => some i2s
  | "i2c" => some i2c
  | _ => none

def intOp? : String → Option (Int32 → Int32 → Except Fault Int32)
  | "imul" => some fun a b => .ok (imul a b)
  | "idiv" => some idiv
  | "irem" => some irem
  | "ishl" => some fun a b => .ok (ishl a b)
  | "ishr" => some fun a b => .ok (ishr a b)
  | "iushr" => some fun a b => .ok (iushr a b)
  | _ => none

def longOp? : String → Option (Int64 → Int64 → Except Fault Int64)
  | "ladd" => some fun a b => .ok (ladd a b)
  | "lsub" => some fun a b => .ok (lsub a b)
  | "lmul" => some fun a b => .ok (lmul a b)
  | "ldiv" => some ldiv
  | "lrem" => some lrem
  | "land" => some fun a b => .ok (land a b)
  | "lor" => some fun a b => .ok (lor a b)
  | "lxor" => some fun a b => .ok (lxor a b)
  | _ => none

def longShift? : String → Option (Int64 → Int32 → Int64)
  | "lshl" => some lshl
  | "lshr" => some lshr
  | "lushr" => some lushr
  | _ => none

def doubleComparison? : String → Option (UInt64 → UInt64 → Int32)
  | "cmpl" => some cmpl
  | "cmpg" => some cmpg
  | _ => none

def boolOp? : String → Option (Bool → Bool → Bool)
  | "zand" => some zand
  | "zor" => some zor
  | _ => none

/-- Helpers with one argument. -/
def call1? (helper : String) : Operand → Option Operand
  | .int x =>
    match narrowing? helper with
    | some f => some (ofInt32 (f x))
    | none =>
      match helper with
      | "i2j" => (int32? x).map fun x => .long (i2j x)
      | "i2z" => (int32? x).map fun x => .bool (i2z x)
      | _ => none
  | .long x =>
    match helper with
    | "lneg" => some (.long (lneg x))
    | "l2i" => some (ofInt32 (l2i x))
    | "j2f" => some (.single (j2f x))
    | "j2d" => some (.double (j2d x))
    | _ => none
  | .single x =>
    match helper with
    | "f2i" => some (ofInt32 (f2i x))
    | "f2j" => some (.long (f2j x))
    | _ => none
  | .double x =>
    match helper with
    | "d2i" => some (ofInt32 (d2i x))
    | "d2j" => some (.long (d2j x))
    | "d2f" => some (.single (d2f x))
    | _ => none
  | .bool x =>
    match helper with
    | "z2i" => some (ofInt32 (z2i x))
    | _ => none

/-- Helpers with two arguments. -/
def call2? (helper : String) : Operand → Operand → Option (Except Fault Operand)
  | .int x, .int y =>
    match helper with
    | "cmp" => some (.ok (ofInt32 (cmp x y)))
    | "lnew" =>
      match int32? x, int32? y with
      | some a, some b => some (.ok (.long (lnew a b)))
      | _, _ => none
    | helper =>
      match intOp? helper, int32? x, int32? y with
      | some f, some a, some b => some ((f a b).map ofInt32)
      | _, _, _ => none
  | .long x, .long y =>
    match helper with
    | "lcmp" => some (.ok (ofInt32 (lcmp x y)))
    | helper => (longOp? helper).map fun f => (f x y).map .long
  | .long x, .int y =>
    match longShift? helper, int32? y with
    | some f, some b => some (.ok (.long (f x b)))
    | _, _ => none
  | .double x, .double y => (doubleComparison? helper).map fun f => .ok (ofInt32 (f x y))
  | .bool x, .bool y => (boolOp? helper).map fun f => .ok (.bool (f x y))
  | _, _ => none

/-- A call of a helper by name; nothing when there is no such helper or it does not take such arguments. -/
def call? (helper : String) : List Operand → Option (Except Fault Operand)
  | [x] => (call1? helper x).map .ok
  | [x, y] => call2? helper x y
  | _ => none

end Num

/-- An operand as a value; an int that does not fit 32 bits is none. -/
def Operand.value? : Operand → Option Value
  | .int x => (Num.int32? x).map .int
  | .long x => some (.long x)
  | .single x => some (.float x)
  | .double x => some (.double x)
  | .bool x => some (.bool x)

end HaxeBackend.Support
