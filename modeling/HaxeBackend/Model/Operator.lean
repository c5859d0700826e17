/-!
# Operators of method bodies
-/

namespace HaxeBackend

/-- Binary operators.  `lcmp`, `cmp`, `cmpl` and `cmpg` give -1, 0 or 1; the last two differ in where an unordered
pair goes. -/
inductive BinaryOp where
  | add
  | sub
  | mul
  | div
  | rem
  | and
  | or
  | xor
  | shl
  | shr
  | ushr
  | eq
  | ne
  | lt
  | le
  | gt
  | ge
  | lcmp
  | cmp
  | cmpl
  | cmpg
  deriving DecidableEq, Repr

namespace BinaryOp

def all : List BinaryOp :=
  [add, sub, mul, div, rem, and, or, xor, shl, shr, ushr, eq, ne, lt, le, gt, ge, lcmp, cmp, cmpl, cmpg]

/-- The name of the operator, which is also the ending of its helper function. -/
def name : BinaryOp → String
  | add => "add"
  | sub => "sub"
  | mul => "mul"
  | div => "div"
  | rem => "rem"
  | and => "and"
  | or => "or"
  | xor => "xor"
  | shl => "shl"
  | shr => "shr"
  | ushr => "ushr"
  | eq => "eq"
  | ne => "ne"
  | lt => "lt"
  | le => "le"
  | gt => "gt"
  | ge => "ge"
  | lcmp => "lcmp"
  | cmp => "cmp"
  | cmpl => "cmpl"
  | cmpg => "cmpg"

/-- The spelling between two operands. -/
def symbol : BinaryOp → String
  | add => "+"
  | sub => "-"
  | mul => "*"
  | div => "/"
  | rem => "%"
  | and => "&"
  | or => "|"
  | xor => "^"
  | shl => "<<"
  | shr => ">>"
  | ushr => ">>>"
  | eq => "=="
  | ne => "!="
  | lt => "<"
  | le => "<="
  | gt => ">"
  | ge => ">="
  | lcmp => "lcmp"
  | cmp => "cmp"
  | cmpl => "cmpl"
  | cmpg => "cmpg"

def ofName? (s : String) : Option BinaryOp :=
  all.find? fun op => op.name == s

def isShift : BinaryOp → Bool
  | shl | shr | ushr => true
  | _ => false

/-- Comparisons that are always a helper call, identity among them. -/
def isComparisonHelper : BinaryOp → Bool
  | lcmp | cmp | cmpl | cmpg | eq | ne => true
  | _ => false

theorem mem_all (op : BinaryOp) : op ∈ all := by
  cases op <;> decide

end BinaryOp

inductive UnaryOp where
  /-- Arithmetic negation. -/
  | neg
  /-- Negation of a boolean. -/
  | not
  /-- Bitwise complement. -/
  | inv
  deriving DecidableEq, Repr

def UnaryOp.ofName? : String → Option UnaryOp
  | "neg" => some .neg
  | "not" => some .not
  | "inv" => some .inv
  | _ => none

end HaxeBackend
