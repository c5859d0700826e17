import HaxeBackend.Proofs.Arithmetic.Reading
import HaxeBackend.Proofs.Arithmetic.Word
import HaxeBackend.Lowering.Operator
import HaxeBackend.Support.Num
import Mathlib.Data.Int.Bitwise

/-!
# Evaluating integer expressions of the target

The meaning of terms that were read from text.  Ints of the target are unbounded, its native operators compute on
them as they are, and a helper call means the helper of the support library.  The key facts: a native operator is
right in the low 32 bits of its result (`nativeBinary_arithmetic`), the narrowing helpers cut any int to a word
(`callHelper_narrowing`), and the other helpers compute on words exactly (`callHelper_int`, `callHelper_long`,
`callHelper_longShift`).
-/

namespace HaxeBackend.Arithmetic

open Support (Operand)
open Support.Num (call?)

/-! ### Evaluation -/

/-- A native operator.  Division of ints does not give an int in the target, and shifts are not used natively. -/
def nativeBinary (op : BinaryOp) : Operand → Operand → Outcome Operand
  | .int x, .int y =>
    match op with
    | .add => pure (.int (x + y))
    | .sub => pure (.int (x - y))
    | .mul => pure (.int (x * y))
    | .and => pure (.int (x.land y))
    | .or => pure (.int (x.lor y))
    | .xor => pure (.int (x.xor y))
    | .eq => pure (.bool (x == y))
    | .ne => pure (.bool (x != y))
    | .lt => pure (.bool (x < y))
    | .le => pure (.bool (x ≤ y))
    | .gt => pure (.bool (y < x))
    | .ge => pure (.bool (y ≤ x))
    | _ => stuck
  | .bool x, .bool y =>
    match op with
    | .eq => pure (.bool (x == y))
    | .ne => pure (.bool (x != y))
    | _ => stuck
  | _, _ => stuck

/-- Whether two operands are identical as values. -/
def identical (x y : Operand) : Outcome Bool :=
  match x.value?, y.value? with
  | some a, some b => pure (a.identical b)
  | _, _ => stuck

/-- A helper call; the two comparisons by identity take values of any kind. -/
def callHelper (name : String) (args : List Operand) : Outcome Operand :=
  match name, args with
  | "eq", [x, y] => do return .bool (← identical x y)
  | "ne", [x, y] => do return .bool !(← identical x y)
  | name, args => ExceptT.mk (call? name args)

def nativeNegate : Operand → Outcome Operand
  | .int x => pure (.int (-x))
  | _ => stuck

def nativeNot : Operand → Outcome Operand
  | .bool x => pure (.bool !x)
  | _ => stuck

def nativeComplement : Operand → Outcome Operand
  | .int x => pure (.int x.not)
  | _ => stuck

mutual

/-- The value of a term.  Operands are evaluated from left to right. -/
def Term.eval (vars : String → Option Operand) : Term → Outcome Operand
  | .number value => pure (.int value)
  | .truth value => pure (.bool value)
  | .var name =>
    match vars name with
    | some x => pure x
    | none => stuck
  | .helper name args => do callHelper name (← evalAll vars args)
  | .negate operand => do nativeNegate (← operand.eval vars)
  | .not operand => do nativeNot (← operand.eval vars)
  | .complement operand => do nativeComplement (← operand.eval vars)
  | .binary op left right => do
    let x ← left.eval vars
    let y ← right.eval vars
    nativeBinary op x y

def evalAll (vars : String → Option Operand) : List Term → Outcome (List Operand)
  | [] => pure []
  | t :: rest => do
    let x ← t.eval vars
    let xs ← evalAll vars rest
    return x :: xs

end

/-- The operand that holds a value of the source language. -/
def operand : Word → Operand
  | .int x => .int x.toInt
  | .long x => .long (Int64.ofBitVec x)
  | .bool b => .bool b

/-! ### Native operators on words -/

private theorem ofNat_ldiff (m n w : Nat) :
    BitVec.ofNat w (Nat.ldiff m n) = BitVec.ofNat w m &&& ~~~BitVec.ofNat w n := by
  ext i hi
  simp only [← BitVec.getLsbD_eq_getElem, BitVec.getLsbD_and, BitVec.getLsbD_not, BitVec.getLsbD_ofNat, hi,
    Nat.testBit_ldiff, decide_true, Bool.true_and]

private theorem ofInt_land (x y : Int) (w : Nat) :
    BitVec.ofInt w (x.land y) = BitVec.ofInt w x &&& BitVec.ofInt w y := by
  cases x <;> cases y <;>
    simp [Int.land, BitVec.ofInt_negSucc_eq_not_ofNat, ofNat_ldiff, BitVec.and_comm, BitVec.not_or]

private theorem ofInt_lor (x y : Int) (w : Nat) :
    BitVec.ofInt w (x.lor y) = BitVec.ofInt w x ||| BitVec.ofInt w y := by
  cases x <;> cases y <;>
    simp [Int.lor, BitVec.ofInt_negSucc_eq_not_ofNat, ofNat_ldiff, BitVec.or_comm, BitVec.not_and]

private theorem ofInt_xor (x y : Int) (w : Nat) :
    BitVec.ofInt w (x.xor y) = BitVec.ofInt w x ^^^ BitVec.ofInt w y := by
  cases x <;> cases y <;>
    simp [Int.xor, BitVec.ofInt_negSucc_eq_not_ofNat, ← BitVec.not_xor_left, ← BitVec.not_xor_right]

private theorem ofInt_not (x : Int) (w : Nat) : BitVec.ofInt w x.not = ~~~BitVec.ofInt w x := by
  cases x <;> simp [Int.not, BitVec.ofInt_negSucc_eq_not_ofNat]

/-- The operand of a word of 32 bits. -/
def ofBits (x : BitVec 32) : Operand := .int x.toInt

/-- What a native operator computes is right in its low 32 bits. -/
theorem nativeBinary_arithmetic {op : BinaryOp} (hop : isArithmetic op) (hnative : Lowering.needsIntHelper op = false)
    (a b : BitVec 32) :
    ∃ z, nativeBinary op (ofBits a) (ofBits b) = pure (.int z) ∧ computed op a b = pure (BitVec.ofInt 32 z) := by
  cases op with
  | add =>
    refine ⟨a.toInt + b.toInt, rfl, ?_⟩
    rw [BitVec.ofInt_add, BitVec.ofInt_toInt, BitVec.ofInt_toInt]
    rfl
  | sub =>
    refine ⟨a.toInt - b.toInt, rfl, ?_⟩
    rw [Int.sub_eq_add_neg, BitVec.ofInt_add, BitVec.ofInt_neg, BitVec.ofInt_toInt, BitVec.ofInt_toInt,
      ← BitVec.sub_eq_add_neg]
    rfl
  | and =>
    refine ⟨a.toInt.land b.toInt, rfl, ?_⟩
    rw [ofInt_land, BitVec.ofInt_toInt, BitVec.ofInt_toInt]
    rfl
  | or =>
    refine ⟨a.toInt.lor b.toInt, rfl, ?_⟩
    rw [ofInt_lor, BitVec.ofInt_toInt, BitVec.ofInt_toInt]
    rfl
  | xor =>
    refine ⟨a.toInt.xor b.toInt, rfl, ?_⟩
    rw [ofInt_xor, BitVec.ofInt_toInt, BitVec.ofInt_toInt]
    rfl
  | mul | div | rem => cases hnative
  | _ => cases hop

theorem nativeNegate_ofBits (a : BitVec 32) :
    ∃ z, nativeNegate (ofBits a) = pure (.int z) ∧ -a = BitVec.ofInt 32 z := by
  refine ⟨-a.toInt, rfl, ?_⟩
  rw [BitVec.ofInt_neg, BitVec.ofInt_toInt]

theorem nativeComplement_ofBits (a : BitVec 32) :
    ∃ z, nativeComplement (ofBits a) = pure (.int z) ∧ ~~~a = BitVec.ofInt 32 z := by
  refine ⟨a.toInt.not, rfl, ?_⟩
  rw [ofInt_not, BitVec.ofInt_toInt]

/-- Words of 32 bits are ordered as the ints they hold. -/
theorem nativeBinary_order {op : BinaryOp} (hop : isOrder op) (kind : Prim) (a b : BitVec 32) :
    nativeBinary op (ofBits a) (ofBits b) = operand <$> Word.binary op kind (.int a) (.int b) := by
  cases op with
  | lt | le | gt | ge => rfl
  | _ => cases hop

/-! ### Helpers on words -/

open Support.Num in
private theorem int32?_toInt (x : BitVec 32) : int32? x.toInt = some (Int32.ofBitVec x) := by
  have h1 := BitVec.le_toInt x
  have h2 : x.toInt < 2 ^ (32 - 1) := BitVec.toInt_lt
  unfold int32?
  rw [if_pos (by simp at h1 h2; omega), Int32.ofInt, BitVec.ofInt_toInt]
  rfl

/-- The helper that cuts an int to a kind. -/
def narrowing (k : Prim) : String :=
  match k with
  | .byte => "i2b"
  | .short => "i2s"
  | .char => "i2c"
  | _ => "i"

theorem callHelper_narrowing {k : Prim} (hk : k.isIntLike) (x : Int) :
    callHelper (narrowing k) [.int x] = pure (.int (truncate k (BitVec.ofInt 32 x)).toInt) := by
  cases k with
  | byte =>
    show (pure (.int (Support.Num.i2b x).toInt) : Outcome Operand) = _
    rw [toInt_truncate_byte, BitVec.toInt_ofInt, Int.bmod_bmod_of_dvd (by decide), Support.Num.i2b,
      Int8.toInt_toInt32, Int8.toInt_ofInt]
  | short =>
    show (pure (.int (Support.Num.i2s x).toInt) : Outcome Operand) = _
    rw [toInt_truncate_short, BitVec.toInt_ofInt, Int.bmod_bmod_of_dvd (by decide), Support.Num.i2s,
      Int16.toInt_toInt32, Int16.toInt_ofInt]
  | char =>
    show (pure (.int (Support.Num.i2c x).toInt) : Outcome Operand) = _
    rw [toInt_truncate_char, BitVec.toInt_ofInt, Support.Num.i2c, Int32.toInt_ofInt]
    congr 2
    simp only [Int.bmod, Int32.size] at *
    omega
  | int => rfl
  | bool | long | float | double => cases hk

/-! #### Distances of shifts -/

private theorem toNat_eq_of_toInt {w : Nat} {x : BitVec w} {n : Nat} (h : x.toInt = n) : x.toNat = n := by
  rw [BitVec.toInt_eq_toNat_cond] at h
  have hx := x.isLt
  split at h
  · omega
  · omega

private theorem toNat_smod_32 (d : BitVec 32) : (d.smod 32).toNat = d.toNat % 32 := by
  apply toNat_eq_of_toInt
  have h32 : (32 : BitVec 32).toInt = 32 := by decide
  rw [BitVec.toInt_smod, h32, Int.fmod_eq_emod_of_nonneg _ (by decide), BitVec.toInt_eq_toNat_cond]
  split <;> omega

private theorem toNat_smod_64 (d : BitVec 32) : ((d.signExtend 64).smod 64).toNat = d.toNat % 64 := by
  apply toNat_eq_of_toInt
  have h64 : (64 : BitVec 64).toInt = 64 := by decide
  rw [BitVec.toInt_smod, h64, Int.fmod_eq_emod_of_nonneg _ (by decide), BitVec.toInt_signExtend_of_le (by decide),
    BitVec.toInt_eq_toNat_cond]
  split <;> omega

private theorem toNat_signExtend_mod (d : BitVec 32) : (d.signExtend 64).toNat % 64 = d.toNat % 64 := by
  have h := BitVec.toInt_signExtend_of_le (x := d) (show 32 ≤ 64 by decide)
  rw [BitVec.toInt_eq_toNat_cond, BitVec.toInt_eq_toNat_cond] at h
  split at h <;> split at h <;> omega

/-! #### Arithmetic -/

private theorem callHelper_eq_call {name : String} (h : name ≠ "eq" ∧ name ≠ "ne") (args : List Operand) :
    callHelper name args = ExceptT.mk (call? name args) := by
  obtain ⟨heq, hne⟩ := h
  unfold callHelper
  split
  · exact absurd rfl heq
  · exact absurd rfl hne
  · rfl

/-- A helper that takes two ints of 32 bits. -/
private theorem call_intOp {name : String} {f : Int32 → Int32 → Except Support.Fault Int32}
    (hname : name ≠ "eq" ∧ name ≠ "ne" ∧ name ≠ "cmp" ∧ name ≠ "lnew") (hf : Support.Num.intOp? name = some f)
    (a b : BitVec 32) :
    callHelper name [ofBits a, ofBits b] =
      ExceptT.mk (some ((f (Int32.ofBitVec a) (Int32.ofBitVec b)).map fun x => ofBits x.toBitVec)) := by
  obtain ⟨h1, h2, h3, h4⟩ := hname
  rw [callHelper_eq_call ⟨h1, h2⟩]
  simp only [call?, Support.Num.call2?, ofBits]
  rw [hf, int32?_toInt, int32?_toInt]
  rfl

private theorem ofBitVec_ne_zero {b : BitVec 32} (h : b ≠ 0) : Int32.ofBitVec b ≠ 0 :=
  fun hb => h (congrArg Int32.toBitVec hb)

theorem callHelper_int {op : BinaryOp} (hop : Lowering.needsIntHelper op) (a b : BitVec 32) :
    callHelper ("i" ++ op.name) [ofBits a, ofBits b] = ofBits <$> computed op a b := by
  cases op with
  | mul =>
    rw [show "i" ++ BinaryOp.mul.name = "imul" from rfl, call_intOp (by decide) rfl]
    rfl
  | div =>
    rw [show "i" ++ BinaryOp.div.name = "idiv" from rfl, call_intOp (by decide) rfl]
    by_cases hb : b = 0
    · subst hb; rfl
    · rw [Support.Num.idiv, if_neg (ofBitVec_ne_zero hb), show computed .div a b = pure (a.sdiv b) from if_neg hb]
      rfl
  | rem =>
    rw [show "i" ++ BinaryOp.rem.name = "irem" from rfl, call_intOp (by decide) rfl]
    by_cases hb : b = 0
    · subst hb; rfl
    · rw [Support.Num.irem, if_neg (ofBitVec_ne_zero hb), show computed .rem a b = pure (a.srem b) from if_neg hb]
      rfl
  | shl =>
    -- the helper takes the distance modulo 32 with its sign, which is the rest of the unsigned distance
    rw [show "i" ++ BinaryOp.shl.name = "ishl" from rfl, call_intOp (by decide) rfl]
    show pure (ofBits (a <<< (b.smod 32).toNat)) = (pure (ofBits (a <<< (b.toNat % 32))) : Outcome Operand)
    rw [toNat_smod_32]
  | shr =>
    rw [show "i" ++ BinaryOp.shr.name = "ishr" from rfl, call_intOp (by decide) rfl]
    show pure (ofBits (a.sshiftRight (b.smod 32).toNat)) =
      (pure (ofBits (a.sshiftRight (b.toNat % 32))) : Outcome Operand)
    rw [toNat_smod_32]
  | ushr =>
    rw [show "i" ++ BinaryOp.ushr.name = "iushr" from rfl, call_intOp (by decide) rfl]
    show pure (ofBits (a >>> (b % 32).toNat)) = (pure (ofBits (a >>> (b.toNat % 32))) : Outcome Operand)
    rw [BitVec.toNat_umod]
    rfl
  | _ => cases hop

/-! #### Longs -/

/-- The operand of a word of 64 bits. -/
def ofLongBits (x : BitVec 64) : Operand := .long (Int64.ofBitVec x)

private theorem call_longOp {name : String} {f : Int64 → Int64 → Except Support.Fault Int64}
    (hname : name ≠ "eq" ∧ name ≠ "ne" ∧ name ≠ "lcmp") (hf : Support.Num.longOp? name = some f) (a b : BitVec 64) :
    callHelper name [ofLongBits a, ofLongBits b] =
      ExceptT.mk (some ((f (Int64.ofBitVec a) (Int64.ofBitVec b)).map fun x => ofLongBits x.toBitVec)) := by
  obtain ⟨h1, h2, h3⟩ := hname
  rw [callHelper_eq_call ⟨h1, h2⟩]
  simp only [call?, Support.Num.call2?, ofLongBits]
  rw [hf]
  rfl

private theorem ofBitVec_ne_zero_64 {b : BitVec 64} (h : b ≠ 0) : Int64.ofBitVec b ≠ 0 :=
  fun hb => h (congrArg Int64.toBitVec hb)

theorem callHelper_long {op : BinaryOp} (hop : isArithmetic op) (a b : BitVec 64) :
    callHelper ("l" ++ op.name) [ofLongBits a, ofLongBits b] = ofLongBits <$> wrapping op a b := by
  cases op with
  | add =>
    rw [show "l" ++ BinaryOp.add.name = "ladd" from rfl, call_longOp (by decide) rfl]
    rfl
  | sub =>
    rw [show "l" ++ BinaryOp.sub.name = "lsub" from rfl, call_longOp (by decide) rfl]
    rfl
  | mul =>
    rw [show "l" ++ BinaryOp.mul.name = "lmul" from rfl, call_longOp (by decide) rfl]
    rfl
  | div =>
    rw [show "l" ++ BinaryOp.div.name = "ldiv" from rfl, call_longOp (by decide) rfl]
    by_cases hb : b = 0
    · subst hb; rfl
    · rw [Support.Num.ldiv, if_neg (ofBitVec_ne_zero_64 hb), show wrapping .div a b = pure (a.sdiv b) from if_neg hb]
      rfl
  | rem =>
    rw [show "l" ++ BinaryOp.rem.name = "lrem" from rfl, call_longOp (by decide) rfl]
    by_cases hb : b = 0
    · subst hb; rfl
    · rw [Support.Num.lrem, if_neg (ofBitVec_ne_zero_64 hb), show wrapping .rem a b = pure (a.srem b) from if_neg hb]
      rfl
  | and =>
    rw [show "l" ++ BinaryOp.and.name = "land" from rfl, call_longOp (by decide) rfl]
    rfl
  | or =>
    rw [show "l" ++ BinaryOp.or.name = "lor" from rfl, call_longOp (by decide) rfl]
    rfl
  | xor =>
    rw [show "l" ++ BinaryOp.xor.name = "lxor" from rfl, call_longOp (by decide) rfl]
    rfl
  | _ => cases hop

theorem callHelper_longShift {op : BinaryOp} (hop : op.isShift) (a : BitVec 64) (b : BitVec 32) :
    callHelper ("l" ++ op.name) [ofLongBits a, ofBits b] = ofLongBits <$> shifted op a b := by
  have hcall : ∀ {name f}, name ≠ "eq" ∧ name ≠ "ne" → Support.Num.longShift? name = some f →
      callHelper name [ofLongBits a, ofBits b] = pure (.long (f (Int64.ofBitVec a) (Int32.ofBitVec b))) := by
    intro name f hname hf
    rw [callHelper_eq_call hname]
    simp only [call?, Support.Num.call2?, ofLongBits, ofBits]
    rw [hf, int32?_toInt]
    rfl
  cases op with
  | shl =>
    rw [show "l" ++ BinaryOp.shl.name = "lshl" from rfl, hcall (by decide) rfl]
    show pure (ofLongBits (a <<< ((b.signExtend 64).smod 64).toNat)) =
      (pure (ofLongBits (a <<< (b.toNat % 64))) : Outcome Operand)
    rw [toNat_smod_64]
  | shr =>
    rw [show "l" ++ BinaryOp.shr.name = "lshr" from rfl, hcall (by decide) rfl]
    show pure (ofLongBits (a.sshiftRight ((b.signExtend 64).smod 64).toNat)) =
      (pure (ofLongBits (a.sshiftRight (b.toNat % 64))) : Outcome Operand)
    rw [toNat_smod_64]
  | ushr =>
    rw [show "l" ++ BinaryOp.ushr.name = "lushr" from rfl, hcall (by decide) rfl]
    show pure (ofLongBits (a >>> (b.signExtend 64 % 64).toNat)) =
      (pure (ofLongBits (a >>> (b.toNat % 64))) : Outcome Operand)
    rw [BitVec.toNat_umod, ← toNat_signExtend_mod]
    rfl
  | _ => cases hop

/-! #### Comparisons -/

private theorem toBitVec_sign (x y : Int) : (Support.Num.sign (compare x y)).toBitVec = threeWay x y := by
  simp only [compare, compareOfLessAndEq, threeWay]
  by_cases hlt : x < y
  · rw [if_pos hlt, if_pos hlt]
    rfl
  · by_cases heq : x = y
    · rw [if_neg hlt, if_pos heq, if_neg hlt, if_pos heq]
      rfl
    · rw [if_neg hlt, if_neg heq, if_neg hlt, if_neg heq]
      rfl

theorem callHelper_cmp (a b : BitVec 32) :
    callHelper "cmp" [ofBits a, ofBits b] = pure (ofBits (threeWay a.toInt b.toInt)) := by
  show (pure (ofBits (Support.Num.cmp a.toInt b.toInt).toBitVec) : Outcome Operand) = _
  rw [Support.Num.cmp, toBitVec_sign]

theorem callHelper_lcmp (a b : BitVec 64) :
    callHelper "lcmp" [ofLongBits a, ofLongBits b] = pure (ofBits (threeWay a.toInt b.toInt)) := by
  show (pure (ofBits (Support.Num.lcmp (Int64.ofBitVec a) (Int64.ofBitVec b)).toBitVec) : Outcome Operand) = _
  rw [Support.Num.lcmp, toBitVec_sign]
  rfl

private theorem ofBitVec_inj_32 {a b : BitVec 32} : Int32.ofBitVec a = Int32.ofBitVec b ↔ a = b :=
  ⟨congrArg Int32.toBitVec, congrArg Int32.ofBitVec⟩

private theorem ofBitVec_inj_64 {a b : BitVec 64} : Int64.ofBitVec a = Int64.ofBitVec b ↔ a = b :=
  ⟨congrArg Int64.toBitVec, congrArg Int64.ofBitVec⟩

/-- Operands are identical when they hold the same value. -/
theorem identical_operand (a b : Word) : identical (operand a) (operand b) = pure (decide (a = b)) := by
  cases a <;> cases b <;>
    simp [identical, operand, Support.Operand.value?, int32?_toInt, Support.Value.identical, Support.Value.same,
      beq_eq_decide, ofBitVec_inj_32, ofBitVec_inj_64]

theorem callHelper_eq (a b : Word) :
    callHelper "eq" [operand a, operand b] = pure (.bool (decide (a = b))) := by
  show (do return .bool (← identical (operand a) (operand b)) : Outcome Operand) = _
  rw [identical_operand]
  rfl

theorem callHelper_ne (a b : Word) :
    callHelper "ne" [operand a, operand b] = pure (.bool !decide (a = b)) := by
  show (do return .bool !(← identical (operand a) (operand b)) : Outcome Operand) = _
  rw [identical_operand]
  rfl

/-! #### Conversions -/

theorem callHelper_i2j (a : BitVec 32) : callHelper "i2j" [ofBits a] = pure (ofLongBits (a.signExtend 64)) := by
  show ExceptT.mk ((((Support.Num.int32? a.toInt).map fun x => Operand.long (Support.Num.i2j x)).map Except.ok)) = _
  rw [int32?_toInt]
  rfl

theorem callHelper_l2i (a : BitVec 64) : callHelper "l2i" [ofLongBits a] = pure (ofBits (a.setWidth 32)) := by
  show (pure (ofBits (a.signExtend 32)) : Outcome Operand) = _
  rw [BitVec.signExtend_eq_setWidth_of_le a (by decide)]

theorem callHelper_lneg (a : BitVec 64) : callHelper "lneg" [ofLongBits a] = pure (ofLongBits (-a)) := rfl

private theorem or_halves (x : BitVec 64) :
    ((x.sshiftRight 32).signExtend 32).signExtend 64 <<< 32 ||| (x.signExtend 32).setWidth 64 = x := by
  ext i hi
  simp only [← BitVec.getLsbD_eq_getElem, BitVec.getLsbD_or, BitVec.getLsbD_shiftLeft, BitVec.getLsbD_signExtend,
    BitVec.getLsbD_setWidth, BitVec.getLsbD_sshiftRight]
  -- the low half has the bits below 32, and the sign of the high half is shifted out
  by_cases h : i < 32
  · simp [h, hi]
  · have hlow : i - 32 < 32 := by omega
    have hwide : i - 32 < 64 := by omega
    have hback : 32 + (i - 32) = i := by omega
    have hnot : ¬64 ≤ i - 32 := by omega
    simp [h, hi, hlow, hwide, hback, hnot]

/-- A long is built from its halves. -/
theorem callHelper_lnew (x : Int64) :
    callHelper "lnew" [ofBits (x >>> 32).toInt32.toBitVec, ofBits x.toInt32.toBitVec] =
      pure (ofLongBits x.toBitVec) := by
  have hbits : Support.Num.lnew (x >>> 32).toInt32 x.toInt32 = x := by
    rw [← Int64.toBitVec_inj]
    exact or_halves x.toBitVec
  rw [callHelper_eq_call (by decide)]
  simp only [call?, Support.Num.call2?, ofBits]
  rw [int32?_toInt, int32?_toInt]
  show (pure (.long (Support.Num.lnew (x >>> 32).toInt32 x.toInt32)) : Outcome Operand) = _
  rw [hbits]
  rfl

end HaxeBackend.Arithmetic
