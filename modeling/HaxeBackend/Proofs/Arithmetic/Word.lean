import HaxeBackend.Model.Body.Tree
import HaxeBackend.Support.Value
import Mathlib.Algebra.Group.Nat.Defs

/-!
# Integer expressions over words

The meaning of integer expressions of the source language.  Int-like values are computed in words of 32 bits and
longs in words of 64 bits: the operation wraps around, and the result is then cut to the kind that the expression is
declared with.  `Typed` says which expressions are integer expressions.  The key facts: cutting a word leaves a value
in the range of its kind (`holds_truncate`), a value in range is not changed by it (`truncate_of_holds`), and an
integer expression never gets stuck (`Typed.fits`).
-/

namespace HaxeBackend.Arithmetic

open Support (Fault)

/-- What an evaluation gives: a value or a fault, or nothing where an expression has no meaning. -/
abbrev Outcome := ExceptT Fault Option

def stuck {α : Type} : Outcome α := ExceptT.mk none

/-- A value of the source language. -/
inductive Word where
  | int (bits : BitVec 32)
  | long (bits : BitVec 64)
  | bool (value : Bool)
  deriving DecidableEq

/-- Cuts a word to an int-like kind: to its low bits, extended by the sign unless the kind has none. -/
def truncate (kind : Prim) (x : BitVec 32) : BitVec 32 :=
  match kind with
  | .byte => (x.setWidth 8).signExtend 32
  | .short => (x.setWidth 16).signExtend 32
  | .char => (x.setWidth 16).setWidth 32
  | _ => x

/-- Whether a value is in the range of a kind. -/
def Holds : Prim → Word → Prop
  | .bool, .bool _ => True
  | .byte, .int x => -128 ≤ x.toInt ∧ x.toInt ≤ 127
  | .short, .int x => -32768 ≤ x.toInt ∧ x.toInt ≤ 32767
  | .char, .int x => 0 ≤ x.toInt ∧ x.toInt ≤ 65535
  | .int, .int _ => True
  | .long, .long _ => True
  | _, _ => False

/-! ### Operators -/

/-- An int-like result. -/
def narrowed (kind : Prim) (x : BitVec 32) : Outcome Word :=
  if kind.isIntLike then pure (.int (truncate kind x)) else stuck

/-- Arithmetic that wraps around at the width of its words. -/
def wrapping {w : Nat} (op : BinaryOp) (a b : BitVec w) : Outcome (BitVec w) :=
  match op with
  | .add => pure (a + b)
  | .sub => pure (a - b)
  | .mul => pure (a * b)
  | .div => if b = 0 then throw .divisionByZero else pure (a.sdiv b)
  | .rem => if b = 0 then throw .divisionByZero else pure (a.srem b)
  | .and => pure (a &&& b)
  | .or => pure (a ||| b)
  | .xor => pure (a ^^^ b)
  | _ => stuck

/-- Shifts, by the distance modulo the width. -/
def shifted {w : Nat} (op : BinaryOp) (a : BitVec w) (distance : BitVec 32) : Outcome (BitVec w) :=
  match op with
  | .shl => pure (a <<< (distance.toNat % w))
  | .shr => pure (a.sshiftRight (distance.toNat % w))
  | .ushr => pure (a >>> (distance.toNat % w))
  | _ => stuck

/-- An operation on two ints. -/
def computed (op : BinaryOp) (a b : BitVec 32) : Outcome (BitVec 32) :=
  if op.isShift then shifted op a b else wrapping op a b

/-- -1, 0 or 1. -/
def threeWay (a b : Int) : BitVec 32 := if a < b then -1 else if a = b then 0 else 1

namespace Word

/-- A binary operation with a result of the kind. -/
def binary (op : BinaryOp) (kind : Prim) : Word → Word → Outcome Word
  | .int a, .int b =>
    match op with
    | .eq => pure (.bool (a == b))
    | .ne => pure (.bool (a != b))
    | .lt => pure (.bool (a.slt b))
    | .le => pure (.bool (a.sle b))
    | .gt => pure (.bool (b.slt a))
    | .ge => pure (.bool (b.sle a))
    | .cmp => narrowed kind (threeWay a.toInt b.toInt)
    | op => do narrowed kind (← computed op a b)
  | .long a, .long b =>
    match op with
    | .eq => pure (.bool (a == b))
    | .ne => pure (.bool (a != b))
    | .lcmp => narrowed kind (threeWay a.toInt b.toInt)
    | op => do return .long (← wrapping op a b)
  | .long a, .int b => do return .long (← shifted op a b)
  | .bool a, .bool b =>
    match op with
    | .eq => pure (.bool (a == b))
    | .ne | .xor => pure (.bool (a != b))
    | .and => pure (.bool (a && b))
    | .or => pure (.bool (a || b))
    | _ => stuck
  | _, _ => stuck

/-- A unary operation with a result of the kind. -/
def unary (op : UnaryOp) (kind : Prim) : Word → Outcome Word
  | .int a =>
    match op with
    | .neg => narrowed kind (-a)
    | .inv => narrowed kind (~~~a)
    | .not => stuck
  | .long a =>
    match op with
    | .neg => pure (.long (-a))
    | .inv => pure (.long (~~~a))
    | .not => stuck
  | .bool a =>
    match op with
    | .not => pure (.bool !a)
    | _ => stuck

/-- The conversion to another integer kind: ints are extended by the sign, and longs are cut to their low half. -/
def cast (target : Prim) : Word → Outcome Word
  | .int a => if target = .long then pure (.long (a.signExtend 64)) else narrowed target a
  | .long a => if target = .long then pure (.long a) else narrowed target (a.setWidth 32)
  | .bool _ => stuck

end Word

/-- The value of an integer expression.  Operands are evaluated from left to right. -/
def evaluate (locals : Nat → Option Word) : Expr → Outcome Word
  | .literal (.int value) _ => pure (.int value.toBitVec)
  | .literal (.long value) _ => pure (.long value.toBitVec)
  | .literal (.bool value) _ => pure (.bool value)
  | .readLocal id _ =>
    match locals id with
    | some value => pure value
    | none => stuck
  | .binary op left right (.prim kind) => do
    let a ← evaluate locals left
    let b ← evaluate locals right
    Word.binary op kind a b
  | .unary op operand (.prim kind) => do
    let a ← evaluate locals operand
    Word.unary op kind a
  | .cast operand (.prim kind) => do
    let a ← evaluate locals operand
    Word.cast kind a
  | _ => stuck

/-! ### Typing -/

/-- Arithmetic on two operands of the same width. -/
def isArithmetic : BinaryOp → Bool
  | .add | .sub | .mul | .div | .rem | .and | .or | .xor => true
  | _ => false

/-- Comparisons of ints that give a truth value. -/
def isOrder : BinaryOp → Bool
  | .lt | .le | .gt | .ge => true
  | _ => false

/-- Whether two kinds of operands are held in values of one form. -/
def comparable (k k' : Prim) : Bool := (k.isIntLike && k'.isIntLike) || (k == k' && !k.isFloating)

/-- The integer expressions, with their kinds, over locals of these types. -/
inductive Typed (locals : List Ty) : Expr → Prim → Prop where
  | int (value : Int32) {k : Prim} (hk : k.isIntLike) (h : Holds k (.int value.toBitVec)) :
    Typed locals (.literal (.int value) (.prim k)) k
  | long (value : Int64) : Typed locals (.literal (.long value) (.prim .long)) .long
  | bool (value : Bool) : Typed locals (.literal (.bool value) (.prim .bool)) .bool
  | readLocal {id : Nat} {k : Prim} (hk : k.isFloating = false) (h : locals[id]? = some (.prim k)) :
    Typed locals (.readLocal id (.prim k)) k
  | intBinary {op : BinaryOp} {l r : Expr} {kl kr k : Prim} (hop : isArithmetic op || op.isShift || op == .cmp)
    (hl : Typed locals l kl) (hr : Typed locals r kr) (hkl : kl.isIntLike) (hkr : kr.isIntLike) (hk : k.isIntLike) :
    Typed locals (.binary op l r (.prim k)) k
  | intOrder {op : BinaryOp} {l r : Expr} {kl kr : Prim} (hop : isOrder op)
    (hl : Typed locals l kl) (hr : Typed locals r kr) (hkl : kl.isIntLike) (hkr : kr.isIntLike) :
    Typed locals (.binary op l r (.prim .bool)) .bool
  | longBinary {op : BinaryOp} {l r : Expr} (hop : isArithmetic op)
    (hl : Typed locals l .long) (hr : Typed locals r .long) : Typed locals (.binary op l r (.prim .long)) .long
  | longShift {op : BinaryOp} {l r : Expr} {kr : Prim} (hop : op.isShift)
    (hl : Typed locals l .long) (hr : Typed locals r kr) (hkr : kr.isIntLike) :
    Typed locals (.binary op l r (.prim .long)) .long
  | longCompare {l r : Expr} {k : Prim} (hl : Typed locals l .long) (hr : Typed locals r .long) (hk : k.isIntLike) :
    Typed locals (.binary .lcmp l r (.prim k)) k
  | boolBinary {op : BinaryOp} {l r : Expr} (hop : op = .and ∨ op = .or ∨ op = .xor)
    (hl : Typed locals l .bool) (hr : Typed locals r .bool) : Typed locals (.binary op l r (.prim .bool)) .bool
  | equality {op : BinaryOp} {l r : Expr} {kl kr : Prim} (hop : op = .eq ∨ op = .ne)
    (hl : Typed locals l kl) (hr : Typed locals r kr) (hk : comparable kl kr) :
    Typed locals (.binary op l r (.prim .bool)) .bool
  | intUnary {op : UnaryOp} {e : Expr} {ke k : Prim} (hop : op ≠ .not) (he : Typed locals e ke)
    (hke : ke.isIntLike) (hk : k.isIntLike) : Typed locals (.unary op e (.prim k)) k
  | longUnary {op : UnaryOp} {e : Expr} (hop : op ≠ .not) (he : Typed locals e .long) :
    Typed locals (.unary op e (.prim .long)) .long
  | boolNot {e : Expr} (he : Typed locals e .bool) : Typed locals (.unary .not e (.prim .bool)) .bool
  | cast {e : Expr} {ke k : Prim} (he : Typed locals e ke) (hke : ke.isIntLike || ke == .long)
    (hk : k.isIntLike || k == .long) : Typed locals (.cast e (.prim k)) k

/-! ### Ranges -/

private theorem toInt_setWidth_bmod (x : BitVec 32) {w size : Nat} (h : w ≤ 32) (hsize : 2 ^ w = size) :
    (x.setWidth w).toInt = x.toInt.bmod size := by
  rw [← hsize, BitVec.toInt_setWidth, BitVec.toInt_eq_toNat_bmod, Int.bmod_bmod_of_dvd (Nat.pow_dvd_pow 2 h)]

theorem toInt_truncate_byte (x : BitVec 32) : (truncate .byte x).toInt = x.toInt.bmod 256 := by
  simp only [truncate]
  rw [BitVec.toInt_signExtend_of_le (by decide)]
  exact toInt_setWidth_bmod x (by decide) rfl

theorem toInt_truncate_short (x : BitVec 32) : (truncate .short x).toInt = x.toInt.bmod 65536 := by
  simp only [truncate]
  rw [BitVec.toInt_signExtend_of_le (by decide)]
  exact toInt_setWidth_bmod x (by decide) rfl

theorem toInt_truncate_char (x : BitVec 32) : (truncate .char x).toInt = x.toInt % 65536 := by
  simp only [truncate]
  have hx := BitVec.toInt_eq_toNat_cond x
  rw [BitVec.toInt_eq_toNat_cond]
  simp only [BitVec.toNat_setWidth] at *
  split at hx <;> split <;> omega

theorem truncate_of_holds {k : Prim} {x : BitVec 32} (h : Holds k (.int x)) : truncate k x = x := by
  cases k with
  | byte =>
    obtain ⟨h1, h2⟩ := h
    rw [← BitVec.toInt_inj, toInt_truncate_byte]
    exact Int.bmod_eq_of_le (by omega) (by omega)
  | short =>
    obtain ⟨h1, h2⟩ := h
    rw [← BitVec.toInt_inj, toInt_truncate_short]
    exact Int.bmod_eq_of_le (by omega) (by omega)
  | char =>
    obtain ⟨h1, h2⟩ := h
    rw [← BitVec.toInt_inj, toInt_truncate_char]
    omega
  | _ => rfl

theorem holds_truncate {k : Prim} (hk : k.isIntLike) (x : BitVec 32) : Holds k (.int (truncate k x)) := by
  cases k with
  | byte =>
    simp only [Holds, toInt_truncate_byte]
    have h1 := @Int.le_bmod x.toInt 256 (by decide)
    have h2 := @Int.bmod_lt x.toInt 256 (by decide)
    omega
  | short =>
    simp only [Holds, toInt_truncate_short]
    have h1 := @Int.le_bmod x.toInt 65536 (by decide)
    have h2 := @Int.bmod_lt x.toInt 65536 (by decide)
    omega
  | char =>
    simp only [Holds, toInt_truncate_char]
    omega
  | int => trivial
  | bool | long | float | double => cases hk

/-- The value of an int-like kind is an int. -/
theorem Holds.exists_int {k : Prim} {w : Word} (h : Holds k w) (hk : k.isIntLike) : ∃ x, w = .int x := by
  cases w with
  | int x => exact ⟨x, rfl⟩
  | long x => cases k <;> first | exact h.elim | cases hk
  | bool b => cases k <;> first | exact h.elim | cases hk

theorem Holds.exists_long {w : Word} (h : Holds .long w) : ∃ x, w = .long x := by
  cases w with
  | long x => exact ⟨x, rfl⟩
  | int x => exact h.elim
  | bool b => exact h.elim

theorem Holds.exists_bool {w : Word} (h : Holds .bool w) : ∃ b, w = .bool b := by
  cases w with
  | bool b => exact ⟨b, rfl⟩
  | int x => exact h.elim
  | long x => exact h.elim

/-! ### Soundness of the types -/

/-- The outcome of an expression of a kind: a value in range, or a division by zero. -/
def Fits (k : Prim) (r : Outcome Word) : Prop := (∃ w, r = pure w ∧ Holds k w) ∨ r = throw .divisionByZero

private theorem Fits.bind {k k' : Prim} {r : Outcome Word} {f : Word → Outcome Word} (h : Fits k r)
    (hf : ∀ w, Holds k w → Fits k' (f w)) : Fits k' (r >>= f) := by
  rcases h with ⟨w, rfl, hw⟩ | rfl
  · exact hf w hw
  · exact .inr rfl

private theorem fits_int {k : Prim} (hk : k.isIntLike) (x : BitVec 32) : Fits k (narrowed k x) := by
  rw [narrowed, if_pos hk]
  exact .inl ⟨_, rfl, holds_truncate hk x⟩

private theorem fits_long (x : BitVec 64) : Fits .long (pure (.long x)) := .inl ⟨_, rfl, trivial⟩

private theorem fits_bool (b : Bool) : Fits .bool (pure (.bool b)) := .inl ⟨_, rfl, trivial⟩

private theorem wrapping_cases {w : Nat} {op : BinaryOp} (hop : isArithmetic op) (a b : BitVec w) :
    (∃ x, wrapping op a b = pure x) ∨ wrapping op a b = throw .divisionByZero := by
  cases op with
  | add | sub | mul | and | or | xor => exact .inl ⟨_, rfl⟩
  | div | rem =>
    by_cases hb : b = 0
    · exact .inr (if_pos hb)
    · exact .inl ⟨_, if_neg hb⟩
  | _ => cases hop

private theorem shifted_eq {w : Nat} {op : BinaryOp} (hop : op.isShift) (a : BitVec w) (d : BitVec 32) :
    ∃ x, shifted op a d = pure x := by
  cases op with
  | shl | shr | ushr => exact ⟨_, rfl⟩
  | _ => cases hop

private theorem computed_cases {op : BinaryOp} (hop : isArithmetic op || op.isShift) (a b : BitVec 32) :
    (∃ x, computed op a b = pure x) ∨ computed op a b = throw .divisionByZero := by
  rw [computed]
  by_cases hs : op.isShift
  · rw [if_pos hs]
    exact .inl (shifted_eq hs a b)
  · rw [if_neg hs]
    exact wrapping_cases (by simpa [hs] using hop) a b

theorem binary_int_eq {op : BinaryOp} (hop : isArithmetic op || op.isShift) (k : Prim) (a b : BitVec 32) :
    Word.binary op k (.int a) (.int b) = computed op a b >>= narrowed k := by
  cases op with
  | eq | ne | lt | le | gt | ge | cmp | lcmp | cmpl | cmpg => cases hop
  | _ => rfl

theorem binary_long_eq {op : BinaryOp} (hop : isArithmetic op) (k : Prim) (a b : BitVec 64) :
    Word.binary op k (.long a) (.long b) = Word.long <$> wrapping op a b := by
  rw [map_eq_pure_bind]
  cases op with
  | add | sub | mul | div | rem | and | or | xor => rfl
  | _ => cases hop

/-- The locals have values in the range of their kinds. -/
def Valued (types : List Ty) (locals : Nat → Option Word) : Prop :=
  ∀ id k, types[id]? = some (.prim k) → k.isFloating = false → ∃ w, locals id = some w ∧ Holds k w

private theorem fits_binary_int {op : BinaryOp} {kl kr k : Prim} {v w : Word}
    (hop : isArithmetic op || op.isShift || op == .cmp) (hkl : kl.isIntLike) (hkr : kr.isIntLike) (hk : k.isIntLike)
    (hv : Holds kl v) (hw : Holds kr w) : Fits k (Word.binary op k v w) := by
  obtain ⟨x, rfl⟩ := hv.exists_int hkl
  obtain ⟨y, rfl⟩ := hw.exists_int hkr
  by_cases hcmp : op = .cmp
  · subst hcmp
    exact fits_int hk _
  · have hop' : isArithmetic op || op.isShift := by simpa [hcmp] using hop
    rw [binary_int_eq hop']
    rcases computed_cases hop' x y with ⟨z, hz⟩ | hz
    · rw [hz]
      exact fits_int hk z
    · rw [hz]
      exact .inr rfl

private theorem fits_binary_long {op : BinaryOp} {v w : Word} (hop : isArithmetic op) (hv : Holds .long v)
    (hw : Holds .long w) : Fits .long (Word.binary op .long v w) := by
  obtain ⟨x, rfl⟩ := hv.exists_long
  obtain ⟨y, rfl⟩ := hw.exists_long
  rw [binary_long_eq hop]
  rcases wrapping_cases hop x y with ⟨z, hz⟩ | hz
  · rw [hz]
    exact fits_long z
  · rw [hz]
    exact .inr rfl

private theorem fits_shift_long {op : BinaryOp} {kr : Prim} {v w : Word} (hop : op.isShift) (hkr : kr.isIntLike)
    (hv : Holds .long v) (hw : Holds kr w) : Fits .long (Word.binary op .long v w) := by
  obtain ⟨x, rfl⟩ := hv.exists_long
  obtain ⟨y, rfl⟩ := hw.exists_int hkr
  obtain ⟨z, hz⟩ := shifted_eq hop x y
  show Fits .long (shifted op x y >>= fun z => pure (.long z))
  rw [hz]
  exact fits_long z

/-- Values of comparable kinds have one form, so that equality is that of words. -/
theorem binary_equality {kl kr : Prim} {v w : Word} (hcomparable : comparable kl kr) (hv : Holds kl v)
    (hw : Holds kr w) :
    Word.binary .eq .bool v w = pure (.bool (decide (v = w))) ∧
      Word.binary .ne .bool v w = pure (.bool !decide (v = w)) := by
  simp only [comparable, Bool.or_eq_true, Bool.and_eq_true, beq_iff_eq, Bool.not_eq_true'] at hcomparable
  rcases hcomparable with ⟨hkl, hkr⟩ | ⟨rfl, hfloating⟩
  · obtain ⟨x, rfl⟩ := hv.exists_int hkl
    obtain ⟨y, rfl⟩ := hw.exists_int hkr
    simp [Word.binary, bne, Bool.beq_eq_decide_eq]
  · cases kl with
    | bool =>
      obtain ⟨x, rfl⟩ := hv.exists_bool
      obtain ⟨y, rfl⟩ := hw.exists_bool
      simp [Word.binary, bne, Bool.beq_eq_decide_eq]
    | long =>
      obtain ⟨x, rfl⟩ := hv.exists_long
      obtain ⟨y, rfl⟩ := hw.exists_long
      simp [Word.binary, bne, Bool.beq_eq_decide_eq]
    | byte | short | char | int =>
      obtain ⟨x, rfl⟩ := hv.exists_int rfl
      obtain ⟨y, rfl⟩ := hw.exists_int rfl
      simp [Word.binary, bne, Bool.beq_eq_decide_eq]
    | float | double => cases hfloating

private theorem fits_unary_int {op : UnaryOp} {ke k : Prim} {v : Word} (hop : op ≠ .not) (hke : ke.isIntLike)
    (hk : k.isIntLike) (hv : Holds ke v) : Fits k (Word.unary op k v) := by
  obtain ⟨x, rfl⟩ := hv.exists_int hke
  cases op with
  | neg | inv => exact fits_int hk _
  | not => exact absurd rfl hop

private theorem fits_unary_long {op : UnaryOp} {v : Word} (hop : op ≠ .not) (hv : Holds .long v) :
    Fits .long (Word.unary op .long v) := by
  obtain ⟨x, rfl⟩ := hv.exists_long
  cases op with
  | neg | inv => exact fits_long _
  | not => exact absurd rfl hop

private theorem fits_cast {ke k : Prim} {v : Word} (hke : ke.isIntLike || ke == .long)
    (hk : k.isIntLike || k == .long) (hv : Holds ke v) : Fits k (Word.cast k v) := by
  simp only [Bool.or_eq_true, beq_iff_eq] at hke hk
  have hlong : ∀ h : k.isIntLike, k ≠ .long := by rintro h rfl; cases h
  rcases hke with hke | rfl
  · obtain ⟨x, rfl⟩ := hv.exists_int hke
    rcases hk with hk | rfl
    · rw [Word.cast, if_neg (hlong hk)]
      exact fits_int hk x
    · exact fits_long _
  · obtain ⟨x, rfl⟩ := hv.exists_long
    rcases hk with hk | rfl
    · rw [Word.cast, if_neg (hlong hk)]
      exact fits_int hk _
    · exact fits_long x

/-- An integer expression has a value in the range of its kind, or divides by zero. -/
theorem Typed.fits {types : List Ty} {locals : Nat → Option Word} (hlocals : Valued types locals) {e : Expr}
    {k : Prim} (h : Typed types e k) : Fits k (evaluate locals e) := by
  -- an operand that divides by zero ends the whole expression, so each case is for operands with a value
  induction h with
  | int value hk h => exact .inl ⟨_, rfl, h⟩
  | long value => exact fits_long _
  | bool value => exact fits_bool value
  | @readLocal id k hk h =>
    obtain ⟨w, hw, hheld⟩ := hlocals id k h hk
    rw [evaluate, hw]
    exact .inl ⟨w, rfl, hheld⟩
  | intBinary hop _ _ hkl hkr hk ihl ihr =>
    exact ihl.bind fun v hv => ihr.bind fun w hw => fits_binary_int hop hkl hkr hk hv hw
  | @intOrder op l r kl kr hop _ _ hkl hkr ihl ihr =>
    refine ihl.bind fun v hv => ihr.bind fun w hw => ?_
    obtain ⟨x, rfl⟩ := hv.exists_int hkl
    obtain ⟨y, rfl⟩ := hw.exists_int hkr
    cases op with
    | lt | le | gt | ge => exact fits_bool _
    | _ => cases hop
  | longBinary hop _ _ ihl ihr => exact ihl.bind fun v hv => ihr.bind fun w hw => fits_binary_long hop hv hw
  | longShift hop _ _ hkr ihl ihr => exact ihl.bind fun v hv => ihr.bind fun w hw => fits_shift_long hop hkr hv hw
  | longCompare _ _ hk ihl ihr =>
    refine ihl.bind fun v hv => ihr.bind fun w hw => ?_
    obtain ⟨x, rfl⟩ := hv.exists_long
    obtain ⟨y, rfl⟩ := hw.exists_long
    exact fits_int hk _
  | boolBinary hop _ _ ihl ihr =>
    refine ihl.bind fun v hv => ihr.bind fun w hw => ?_
    obtain ⟨x, rfl⟩ := hv.exists_bool
    obtain ⟨y, rfl⟩ := hw.exists_bool
    rcases hop with rfl | rfl | rfl <;> exact fits_bool _
  | equality hop _ _ hcomparable ihl ihr =>
    refine ihl.bind fun v hv => ihr.bind fun w hw => ?_
    obtain ⟨heq, hne⟩ := binary_equality hcomparable hv hw
    rcases hop with rfl | rfl
    · rw [heq]
      exact fits_bool _
    · rw [hne]
      exact fits_bool _
  | intUnary hop _ hke hk ih => exact ih.bind fun v hv => fits_unary_int hop hke hk hv
  | longUnary hop _ ih => exact ih.bind fun v hv => fits_unary_long hop hv
  | boolNot _ ih =>
    refine ih.bind fun v hv => ?_
    obtain ⟨x, rfl⟩ := hv.exists_bool
    exact fits_bool _
  | cast _ hke hk ih => exact ih.bind fun v hv => fits_cast hke hk hv

theorem Typed.type {types : List Ty} {e : Expr} {k : Prim} (h : Typed types e k) : e.type = .ok (.prim k) := by
  cases h <;> rfl

end HaxeBackend.Arithmetic
