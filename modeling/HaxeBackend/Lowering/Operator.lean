import HaxeBackend.Naming.Basic
import HaxeBackend.Target.Expr

/-!
# Operators and conversions

Integer results never rely on the arithmetic of the target, whose integers may be wider: what can overflow goes
through a helper or is truncated again to the width of the result type.
-/

namespace HaxeBackend.Lowering

/-! ### Operators -/

/-- Truncates a raw result to the width of its kind.  Results of helpers are exact 32-bit numbers already. -/
def narrow (kind : Option Prim) (isHelper : Bool) (raw : Target.Expr) : Target.Expr :=
  match kind with
  | some .int => if isHelper then raw else .num "i" [raw]
  | some .char => .num "i2c" [raw]
  | some .short => .num "i2s" [raw]
  | some .byte => .num "i2b" [raw]
  | _ => raw

/-- Int operators that need a helper: those whose result depends on more than the low 32 bits of the unbounded
one. -/
def needsIntHelper (op : BinaryOp) : Bool :=
  op.isShift || op == .mul || op == .div || op == .rem

/-- A binary operation before truncation, and whether a helper computes it.  Both operands of a boolean operation
are evaluated. -/
def rawBinary (op : BinaryOp) (left right : Target.Expr) (kind : Option Prim) : Target.Expr × Bool :=
  if op.isComparisonHelper then (.num op.name [left, right], true)
  else if kind = some .long then (.num ("l" ++ op.name) [left, right], true)
  else if kind.any Prim.isIntLike && needsIntHelper op then (.num ("i" ++ op.name) [left, right], true)
  else if kind = some .bool then
    match op with
    | .and => (.num "zand" [left, right], true)
    | .or => (.num "zor" [left, right], true)
    | .xor => (.binary .ne left right, false)
    | op => (.binary op left right, false)
  else (.binary op left right, false)

/-- A binary operation with a result of the type. -/
def binary (op : BinaryOp) (left right : Target.Expr) (type : Ty) : Target.Expr :=
  let (raw, isHelper) := rawBinary op left right type.prim?
  narrow type.prim? isHelper raw

/-- A unary operation with a result of the type. -/
def unary (op : UnaryOp) (operand : Target.Expr) (type : Ty) : Target.Expr :=
  match op, type.prim? with
  | .neg, some .long => .num "lneg" [operand]
  | .neg, kind => narrow kind false (.negate operand)
  | .not, _ => .not operand
  | .inv, some .long => .num "lxor" [operand, .long (-1)]
  | .inv, kind => narrow kind false (.complement operand)

/-! ### Conversions -/

/-- What the names of the boxing helpers end in. -/
def boxKind : Prim → String
  | .bool => "Bool"
  | .byte => "Byte"
  | .short => "Short"
  | .char => "Char"
  | .int => "Int"
  | .long => "Long"
  | .float => "Float"
  | .double => "Double"

def box (kind : Prim) (operand : Target.Expr) : Target.Expr := .natives ("box" ++ boxKind kind) [operand]

def unbox (kind : Prim) (operand : Target.Expr) : Target.Expr := .natives ("unbox" ++ boxKind kind) [operand]

/-- Truncates an exact int to an int-like kind. -/
def narrowTo (kind : Prim) (operand : Target.Expr) : Target.Expr :=
  match kind with
  | .byte => .num "i2b" [operand]
  | .short => .num "i2s" [operand]
  | .char => .num "i2c" [operand]
  | _ => operand

/-- The int that a primitive value converts to. -/
def toInt (source : Prim) (operand : Target.Expr) : Target.Expr :=
  match source with
  | .bool => .num "z2i" [operand]
  | .long => .num "l2i" [operand]
  | .float => .num "f2i" [operand]
  | .double => .num "d2i" [operand]
  | _ => operand

/-- Widening and narrowing between primitive kinds. -/
def convertPrim (source target : Prim) (operand : Target.Expr) : Target.Expr :=
  if source = target then operand
  else
    match source, target with
    | .bool, .long => .num "i2j" [.num "z2i" [operand]]
    | .bool, _ => .num "z2i" [operand]
    | _, .bool => .num "i2z" [toInt source operand]
    | .long, .float => .num "j2f" [operand]
    | .long, .double => .num "j2d" [operand]
    | .float, .double => operand
    | .double, .float => .num "d2f" [operand]
    | .float, .long => .num "f2j" [operand]
    | .double, .long => .num "d2j" [operand]
    | .long, _ | .float, _ | .double, _ => narrowTo target (toInt source operand)
    | _, .long => .num "i2j" [operand]
    | _, .float => .num "d2f" [operand]
    | _, .double => operand
    | .byte, .short => operand
    | _, _ => narrowTo target operand

/-- Converts between types: primitive conversion, boxing, unboxing or a checked cast. -/
def convert (p : Program) (source target : Ty) (operand : Target.Expr) : Target.Expr :=
  if source = target then operand
  else
    match source.prim?, target.prim? with
    | some k, some k' => convertPrim k k' operand
    | none, some k => unbox k operand
    | some k, none => box k operand
    | none, none => .castTo operand (Naming.typeTag p target)

end HaxeBackend.Lowering
