import HaxeBackend.Proofs.Arithmetic.Evaluation
import HaxeBackend.Proofs.Arithmetic.Variables
import HaxeBackend.Proofs.Lowering.Scope

/-!
# Lowering preserves integer values

The text that an integer expression is lowered to evaluates to the value of the expression, or faults when the
expression does.  Only the low bits of what a native operator computes can be relied on, so the induction carries
that every operand is in the range of its kind (`Fits`): then each form that an operator is lowered to, once it is
narrowed, computes what the operator does on words.  The key fact is `lowerExpr_preserves_value`.
-/

namespace HaxeBackend.Arithmetic

open Support (Operand)

/-- Two computations agree when they agree on the values in range. -/
private theorem bind_operand {k : Prim} {r : Outcome Word} (h : Fits k r) {f : Operand → Outcome Operand}
    {g : Word → Outcome Word} (hfg : ∀ w, Holds k w → f (operand w) = operand <$> g w) :
    (operand <$> r >>= f) = operand <$> (r >>= g) := by
  rcases h with ⟨w, rfl, hw⟩ | rfl
  · exact hfg w hw
  · rfl

/-! ### Forms of expressions -/

/-- What the text of an expression evaluates to. -/
def Computes (vars : String → Option Operand) (t : Target.Expr) (r : Outcome Operand) : Prop :=
  ∃ u, term? t = some u ∧ u.eval vars = r

section Forms

attribute [local simp] term? terms? Term.eval evalAll

variable {vars : String → Option Operand} {t t' : Target.Expr} {r r' : Outcome Operand}

private theorem Computes.num1 {helper : String} (hn : isName helper.toList) (h : Computes vars t r) :
    Computes vars (.num helper [t]) (r >>= fun x => callHelper helper [x]) := by
  obtain ⟨u, hu, rfl⟩ := h
  refine ⟨.helper helper [u], ?_, ?_⟩
  · simp [term?, terms?, hu, hn]
  · simp only [Term.eval, evalAll, bind_assoc, pure_bind]

private theorem Computes.num2 {helper : String} (hn : isName helper.toList) (h : Computes vars t r)
    (h' : Computes vars t' r') :
    Computes vars (.num helper [t, t']) (do let x ← r; let y ← r'; callHelper helper [x, y]) := by
  obtain ⟨u, hu, rfl⟩ := h
  obtain ⟨u', hu', rfl⟩ := h'
  refine ⟨.helper helper [u, u'], ?_, ?_⟩
  · simp [term?, terms?, hu, hu', hn]
  · simp only [Term.eval, evalAll, bind_assoc, pure_bind]

private theorem Computes.native {op : BinaryOp} (hop : op ∈ infixOps) (h : Computes vars t r)
    (h' : Computes vars t' r') :
    Computes vars (.binary op t t') (do let x ← r; let y ← r'; nativeBinary op x y) := by
  obtain ⟨u, hu, rfl⟩ := h
  obtain ⟨u', hu', rfl⟩ := h'
  exact ⟨.binary op u u', by simp [term?, hu, hu', hop], by simp only [Term.eval]⟩

private theorem Computes.negate (h : Computes vars t r) : Computes vars (.negate t) (r >>= nativeNegate) := by
  obtain ⟨u, hu, rfl⟩ := h
  exact ⟨.negate u, by simp [term?, hu], by simp only [Term.eval]⟩

private theorem Computes.not (h : Computes vars t r) : Computes vars (.not t) (r >>= nativeNot) := by
  obtain ⟨u, hu, rfl⟩ := h
  exact ⟨.not u, by simp [term?, hu], by simp only [Term.eval]⟩

private theorem Computes.complement (h : Computes vars t r) :
    Computes vars (.complement t) (r >>= nativeComplement) := by
  obtain ⟨u, hu, rfl⟩ := h
  exact ⟨.complement u, by simp [term?, hu], by simp only [Term.eval]⟩

private theorem computes_var {name : String} {x : Operand} (hn : isVariable name) (hx : vars name = some x) :
    Computes vars (.var name) (pure x) :=
  ⟨.var name, by simp [term?, hn], by simp [Term.eval, hx]⟩

theorem computes_bool (b : Bool) : Computes vars (.bool b) (pure (.bool b)) :=
  ⟨.truth b, by simp [term?], by simp [Term.eval]⟩

theorem computes_int (x : Int32) : Computes vars (.int x) (pure (ofBits x.toBitVec)) := by
  refine ⟨intTerm x, by simp [term?], ?_⟩
  unfold intTerm
  by_cases hmin : x = Int32.minValue
  · subst hmin
    rfl
  · rw [if_neg hmin]
    by_cases hpos : 0 ≤ x.toInt
    · rw [if_pos hpos, Term.eval, Int.toNat_of_nonneg hpos]
      rfl
    · rw [if_neg hpos, Term.eval, Term.eval, Int.toNat_of_nonneg (by omega)]
      show (pure (.int (-(-x.toInt))) : Outcome Operand) = _
      rw [Int.neg_neg]
      rfl

theorem computes_long (x : Int64) : Computes vars (.long x) (pure (ofLongBits x.toBitVec)) := by
  have h : Computes vars (.num "lnew" [.int (x >>> 32).toInt32, .int x.toInt32]) _ :=
    Computes.num2 (by decide) (computes_int _) (computes_int _)
  simp only [pure_bind, callHelper_lnew] at h
  exact h

/-! ### Narrowing -/

/-- What narrowing does to a result. -/
private def cut (k : Prim) (isHelper : Bool) (x : Operand) : Outcome Operand :=
  if k = .int ∧ isHelper then pure x else callHelper (narrowing k) [x]

private theorem Computes.narrow {k : Prim} (hk : k.isIntLike) (isHelper : Bool) (h : Computes vars t r) :
    Computes vars (Lowering.narrow (some k) isHelper t) (r >>= cut k isHelper) := by
  cases k with
  | byte | short | char => exact h.num1 (by decide)
  | int =>
    cases isHelper with
    | true =>
      have hid : (r >>= cut .int true) = r := by
        show (r >>= fun x => pure x) = r
        rw [bind_pure]
      rw [hid]
      exact h
    | false => exact h.num1 (by decide)
  | bool | long | float | double => cases hk

private theorem cut_native {k : Prim} (hk : k.isIntLike) (z : Int) :
    cut k false (.int z) = operand <$> narrowed k (BitVec.ofInt 32 z) := by
  rw [cut, if_neg (by simp), callHelper_narrowing hk, narrowed, if_pos hk]
  rfl

private theorem cut_ofBits {k : Prim} (hk : k.isIntLike) (isHelper : Bool) (x : BitVec 32) :
    cut k isHelper (ofBits x) = operand <$> narrowed k x := by
  by_cases h : k = .int ∧ isHelper
  · rw [cut, if_pos h, h.1]
    rfl
  · rw [cut, if_neg h, ofBits, callHelper_narrowing hk, BitVec.ofInt_toInt, narrowed, if_pos hk]
    rfl

/-- Whatever a helper computes on words of 32 bits is narrowed. -/
private theorem cut_helper {k : Prim} (hk : k.isIntLike) (isHelper : Bool) (c : Outcome (BitVec 32)) :
    (ofBits <$> c >>= cut k isHelper) = operand <$> (c >>= narrowed k) := by
  rw [bind_map_left, map_bind]
  simp only [cut_ofBits hk]

end Forms

/-! ### Forms of operators -/

section Operators

variable {vars : String → Option Operand} {l r t : Target.Expr} {a b : Outcome Word} {kl kr k : Prim} {op : BinaryOp}

/-- An expression with two operands simulates an operator when it does on the values in range. -/
private theorem Computes.simulates {f : Operand → Operand → Outcome Operand} {g : Word → Word → Outcome Word}
    (h : Computes vars t (do let x ← operand <$> a; let y ← operand <$> b; f x y)) (ha : Fits kl a) (hb : Fits kr b)
    (hfg : ∀ v w, Holds kl v → Holds kr w → f (operand v) (operand w) = operand <$> g v w) :
    Computes vars t (operand <$> (do let v ← a; let w ← b; g v w)) := by
  have heq : (do let x ← operand <$> a; let y ← operand <$> b; f x y) =
      operand <$> (do let v ← a; let w ← b; g v w) :=
    bind_operand ha fun v hv => bind_operand hb fun w hw => hfg v w hv hw
  rw [← heq]
  exact h

private theorem binary_eq_helper (hk : k.isIntLike) (hop : Lowering.needsIntHelper op) :
    Lowering.binary op l r (.prim k) = Lowering.narrow (some k) true (.num ("i" ++ op.name) [l, r]) := by
  have hcomparison : op.isComparisonHelper = false := by revert hop; cases op <;> decide
  have hlong : k ≠ .long := by rintro rfl; cases hk
  simp [Lowering.binary, Lowering.rawBinary, Ty.prim?, hcomparison, hlong, hk, hop]

private theorem binary_eq_native (hk : k.isIntLike) (hop : isArithmetic op)
    (hnative : Lowering.needsIntHelper op = false) :
    Lowering.binary op l r (.prim k) = Lowering.narrow (some k) false (.binary op l r) := by
  have hcomparison : op.isComparisonHelper = false := by revert hop; cases op <;> decide
  have hlong : k ≠ .long := by rintro rfl; cases hk
  have hbool : k ≠ .bool := by rintro rfl; cases hk
  simp [Lowering.binary, Lowering.rawBinary, Ty.prim?, hcomparison, hlong, hbool, hnative]

/-- The helpers of int operators have names. -/
private theorem isName_intHelper (hop : Lowering.needsIntHelper op) : isName ("i" ++ op.name).toList := by
  revert hop; cases op <;> decide

private theorem computes_intBinary (hop : isArithmetic op || op.isShift) (hkl : kl.isIntLike) (hkr : kr.isIntLike)
    (hk : k.isIntLike) (hl : Computes vars l (operand <$> a)) (hr : Computes vars r (operand <$> b)) (ha : Fits kl a)
    (hb : Fits kr b) :
    Computes vars (Lowering.binary op l r (.prim k)) (operand <$> (do let v ← a; let w ← b; Word.binary op k v w)) := by
  cases hhelper : Lowering.needsIntHelper op with
  | true =>
    have h := (Computes.num2 (isName_intHelper hhelper) hl hr).narrow hk true
    simp only [bind_assoc] at h
    rw [binary_eq_helper hk hhelper]
    refine h.simulates ha hb fun v w hv hw => ?_
    obtain ⟨x, rfl⟩ := hv.exists_int hkl
    obtain ⟨y, rfl⟩ := hw.exists_int hkr
    rw [binary_int_eq hop]
    show (callHelper ("i" ++ op.name) [ofBits x, ofBits y] >>= cut k true) = _
    rw [callHelper_int hhelper, cut_helper hk]
  | false =>
    have harith : isArithmetic op := by revert hop hhelper; cases op <;> decide
    have hinfix : op ∈ infixOps := by revert harith; cases op <;> decide
    have h := (Computes.native hinfix hl hr).narrow hk false
    simp only [bind_assoc] at h
    rw [binary_eq_native hk harith hhelper]
    refine h.simulates ha hb fun v w hv hw => ?_
    obtain ⟨x, rfl⟩ := hv.exists_int hkl
    obtain ⟨y, rfl⟩ := hw.exists_int hkr
    -- the native result may leave the range of ints; only its low bits are used, and narrowing keeps no others
    obtain ⟨z, hz, hcomputed⟩ := nativeBinary_arithmetic harith hhelper x y
    rw [binary_int_eq hop, hcomputed, pure_bind]
    show (nativeBinary op (ofBits x) (ofBits y) >>= cut k false) = _
    rw [hz, pure_bind, cut_native hk]

private theorem computes_cmp (hkl : kl.isIntLike) (hkr : kr.isIntLike) (hk : k.isIntLike)
    (hl : Computes vars l (operand <$> a)) (hr : Computes vars r (operand <$> b)) (ha : Fits kl a) (hb : Fits kr b) :
    Computes vars (Lowering.binary .cmp l r (.prim k))
      (operand <$> (do let v ← a; let w ← b; Word.binary .cmp k v w)) := by
  have h := (Computes.num2 (show isName "cmp".toList by decide) hl hr).narrow hk true
  simp only [bind_assoc] at h
  refine h.simulates ha hb fun v w hv hw => ?_
  obtain ⟨x, rfl⟩ := hv.exists_int hkl
  obtain ⟨y, rfl⟩ := hw.exists_int hkr
  show (callHelper "cmp" [ofBits x, ofBits y] >>= cut k true) = operand <$> narrowed k (threeWay x.toInt y.toInt)
  rw [callHelper_cmp, pure_bind, cut_ofBits hk]

private theorem computes_lcmp (hk : k.isIntLike) (hl : Computes vars l (operand <$> a))
    (hr : Computes vars r (operand <$> b)) (ha : Fits .long a) (hb : Fits .long b) :
    Computes vars (Lowering.binary .lcmp l r (.prim k))
      (operand <$> (do let v ← a; let w ← b; Word.binary .lcmp k v w)) := by
  have h := (Computes.num2 (show isName "lcmp".toList by decide) hl hr).narrow hk true
  simp only [bind_assoc] at h
  refine h.simulates ha hb fun v w hv hw => ?_
  obtain ⟨x, rfl⟩ := hv.exists_long
  obtain ⟨y, rfl⟩ := hw.exists_long
  show (callHelper "lcmp" [ofLongBits x, ofLongBits y] >>= cut k true) =
    operand <$> narrowed k (threeWay x.toInt y.toInt)
  rw [callHelper_lcmp, pure_bind, cut_ofBits hk]

private theorem computes_order (hop : isOrder op) (hkl : kl.isIntLike) (hkr : kr.isIntLike)
    (hl : Computes vars l (operand <$> a)) (hr : Computes vars r (operand <$> b)) (ha : Fits kl a) (hb : Fits kr b) :
    Computes vars (Lowering.binary op l r (.prim .bool))
      (operand <$> (do let v ← a; let w ← b; Word.binary op .bool v w)) := by
  have hform : Lowering.binary op l r (.prim .bool) = .binary op l r := by
    cases op with
    | lt | le | gt | ge => rfl
    | _ => cases hop
  have hinfix : op ∈ infixOps := by revert hop; cases op <;> decide
  rw [hform]
  refine (Computes.native hinfix hl hr).simulates ha hb fun v w hv hw => ?_
  obtain ⟨x, rfl⟩ := hv.exists_int hkl
  obtain ⟨y, rfl⟩ := hw.exists_int hkr
  exact nativeBinary_order hop .bool x y

/-! #### Longs -/

private theorem binary_eq_long (hop : isArithmetic op || op.isShift) :
    Lowering.binary op l r (.prim .long) = .num ("l" ++ op.name) [l, r] := by
  have hcomparison : op.isComparisonHelper = false := by revert hop; cases op <;> decide
  simp [Lowering.binary, Lowering.rawBinary, Lowering.narrow, Ty.prim?, hcomparison]

private theorem isName_longHelper (hop : isArithmetic op || op.isShift) : isName ("l" ++ op.name).toList := by
  revert hop; cases op <;> decide

private theorem computes_longBinary (hop : isArithmetic op) (hl : Computes vars l (operand <$> a))
    (hr : Computes vars r (operand <$> b)) (ha : Fits .long a) (hb : Fits .long b) :
    Computes vars (Lowering.binary op l r (.prim .long))
      (operand <$> (do let v ← a; let w ← b; Word.binary op .long v w)) := by
  have hop' : isArithmetic op || op.isShift := by simp [hop]
  rw [binary_eq_long hop']
  refine (Computes.num2 (isName_longHelper hop') hl hr).simulates ha hb fun v w hv hw => ?_
  obtain ⟨x, rfl⟩ := hv.exists_long
  obtain ⟨y, rfl⟩ := hw.exists_long
  rw [binary_long_eq hop, Functor.map_map]
  exact callHelper_long hop x y

private theorem computes_longShift (hop : op.isShift) (hkr : kr.isIntLike) (hl : Computes vars l (operand <$> a))
    (hr : Computes vars r (operand <$> b)) (ha : Fits .long a) (hb : Fits kr b) :
    Computes vars (Lowering.binary op l r (.prim .long))
      (operand <$> (do let v ← a; let w ← b; Word.binary op .long v w)) := by
  have hop' : isArithmetic op || op.isShift := by simp [hop]
  rw [binary_eq_long hop']
  refine (Computes.num2 (isName_longHelper hop') hl hr).simulates ha hb fun v w hv hw => ?_
  obtain ⟨x, rfl⟩ := hv.exists_long
  obtain ⟨y, rfl⟩ := hw.exists_int hkr
  show callHelper ("l" ++ op.name) [ofLongBits x, ofBits y] = operand <$> (shifted op x y >>= fun z => pure (.long z))
  rw [← map_eq_pure_bind, Functor.map_map]
  exact callHelper_longShift hop x y

/-! #### Truth values -/

private theorem computes_boolBinary (hop : op = .and ∨ op = .or ∨ op = .xor) (hl : Computes vars l (operand <$> a))
    (hr : Computes vars r (operand <$> b)) (ha : Fits .bool a) (hb : Fits .bool b) :
    Computes vars (Lowering.binary op l r (.prim .bool))
      (operand <$> (do let v ← a; let w ← b; Word.binary op .bool v w)) := by
  rcases hop with rfl | rfl | rfl
  · refine (Computes.num2 (show isName "zand".toList by decide) hl hr).simulates ha hb fun v w hv hw => ?_
    obtain ⟨x, rfl⟩ := hv.exists_bool
    obtain ⟨y, rfl⟩ := hw.exists_bool
    rfl
  · refine (Computes.num2 (show isName "zor".toList by decide) hl hr).simulates ha hb fun v w hv hw => ?_
    obtain ⟨x, rfl⟩ := hv.exists_bool
    obtain ⟨y, rfl⟩ := hw.exists_bool
    rfl
  · refine (Computes.native (show BinaryOp.ne ∈ infixOps by decide) hl hr).simulates ha hb fun v w hv hw => ?_
    obtain ⟨x, rfl⟩ := hv.exists_bool
    obtain ⟨y, rfl⟩ := hw.exists_bool
    rfl

private theorem computes_equality (hop : op = .eq ∨ op = .ne) (hcomparable : comparable kl kr)
    (hl : Computes vars l (operand <$> a)) (hr : Computes vars r (operand <$> b)) (ha : Fits kl a) (hb : Fits kr b) :
    Computes vars (Lowering.binary op l r (.prim .bool))
      (operand <$> (do let v ← a; let w ← b; Word.binary op .bool v w)) := by
  rcases hop with rfl | rfl
  · refine (Computes.num2 (show isName "eq".toList by decide) hl hr).simulates ha hb fun v w hv hw => ?_
    rw [(binary_equality hcomparable hv hw).1, callHelper_eq]
    rfl
  · refine (Computes.num2 (show isName "ne".toList by decide) hl hr).simulates ha hb fun v w hv hw => ?_
    rw [(binary_equality hcomparable hv hw).2, callHelper_ne]
    rfl

/-! #### One operand -/

private theorem Computes.simulates_one {f : Operand → Outcome Operand} {g : Word → Outcome Word}
    (h : Computes vars t (operand <$> a >>= f)) (ha : Fits k a)
    (hfg : ∀ v, Holds k v → f (operand v) = operand <$> g v) : Computes vars t (operand <$> (a >>= g)) := by
  rw [← bind_operand ha hfg]
  exact h

private theorem unary_eq_native {op : UnaryOp} (hop : op ≠ .not) (hk : k.isIntLike) :
    Lowering.unary op l (.prim k) =
      Lowering.narrow (some k) false (if op = .neg then .negate l else .complement l) := by
  cases op with
  | not => exact absurd rfl hop
  | neg | inv =>
    cases k with
    | byte | short | char | int => rfl
    | bool | long | float | double => cases hk

private theorem computes_intUnary {op : UnaryOp} (hop : op ≠ .not) (hkl : kl.isIntLike) (hk : k.isIntLike)
    (hl : Computes vars l (operand <$> a)) (ha : Fits kl a) :
    Computes vars (Lowering.unary op l (.prim k)) (operand <$> (a >>= Word.unary op k)) := by
  rw [unary_eq_native hop hk]
  cases op with
  | not => exact absurd rfl hop
  | neg =>
    have h := hl.negate.narrow hk false
    rw [bind_assoc] at h
    refine h.simulates_one ha fun v hv => ?_
    obtain ⟨x, rfl⟩ := hv.exists_int hkl
    obtain ⟨z, hz, hx⟩ := nativeNegate_ofBits x
    show (nativeNegate (ofBits x) >>= cut k false) = operand <$> narrowed k (-x)
    rw [hz, hx, pure_bind, cut_native hk]
  | inv =>
    have h := hl.complement.narrow hk false
    rw [bind_assoc] at h
    refine h.simulates_one ha fun v hv => ?_
    obtain ⟨x, rfl⟩ := hv.exists_int hkl
    obtain ⟨z, hz, hx⟩ := nativeComplement_ofBits x
    show (nativeComplement (ofBits x) >>= cut k false) = operand <$> narrowed k (~~~x)
    rw [hz, hx, pure_bind, cut_native hk]

private theorem computes_longUnary {op : UnaryOp} (hop : op ≠ .not) (hl : Computes vars l (operand <$> a))
    (ha : Fits .long a) :
    Computes vars (Lowering.unary op l (.prim .long)) (operand <$> (a >>= Word.unary op .long)) := by
  cases op with
  | not => exact absurd rfl hop
  | neg =>
    refine (hl.num1 (show isName "lneg".toList by decide)).simulates_one ha fun v hv => ?_
    obtain ⟨x, rfl⟩ := hv.exists_long
    exact callHelper_lneg x
  | inv =>
    -- the complement is the exclusive or with all bits set
    have h := hl.num2 (show isName "lxor".toList by decide) (computes_long (-1))
    simp only [pure_bind] at h
    refine h.simulates_one ha fun v hv => ?_
    obtain ⟨x, rfl⟩ := hv.exists_long
    have hones : x ^^^ (-1 : Int64).toBitVec = ~~~x := by
      rw [show (-1 : Int64).toBitVec = BitVec.allOnes 64 by decide, BitVec.xor_allOnes]
    show callHelper ("l" ++ BinaryOp.xor.name) [ofLongBits x, ofLongBits (-1 : Int64).toBitVec] = _
    rw [callHelper_long rfl]
    show (pure (ofLongBits (x ^^^ (-1 : Int64).toBitVec)) : Outcome Operand) = _
    rw [hones]
    rfl

private theorem computes_boolNot (hl : Computes vars l (operand <$> a)) (ha : Fits .bool a) :
    Computes vars (Lowering.unary .not l (.prim .bool)) (operand <$> (a >>= Word.unary .not .bool)) := by
  refine hl.not.simulates_one ha fun v hv => ?_
  obtain ⟨x, rfl⟩ := hv.exists_bool
  rfl

/-! #### Conversions -/

private theorem narrowTo_eq (hk : k.isIntLike) : Lowering.narrowTo k l = Lowering.narrow (some k) true l := by
  cases k with
  | byte | short | char | int => rfl
  | bool | long | float | double => cases hk

/-- A value in the range of a kind is not changed by a cast to the kind. -/
private theorem cast_of_holds {v : Word} (hk : k.isIntLike || k == .long) (hv : Holds k v) :
    Word.cast k v = pure v := by
  by_cases hlong : k = .long
  · subst hlong
    obtain ⟨x, rfl⟩ := hv.exists_long
    rfl
  · have hint : k.isIntLike := by simpa [hlong] using hk
    obtain ⟨x, rfl⟩ := hv.exists_int hint
    rw [Word.cast, if_neg hlong, narrowed, if_pos hint, truncate_of_holds hv]

/-- Bytes are shorts. -/
private theorem Holds.short_of_byte {v : Word} (h : Holds .byte v) : Holds .short v := by
  obtain ⟨x, rfl⟩ := h.exists_int rfl
  obtain ⟨h1, h2⟩ := h
  exact ⟨by omega, by omega⟩

private theorem computes_unchanged (hk : k.isIntLike || k == .long) (hl : Computes vars l (operand <$> a))
    (ha : Fits kl a) (hheld : ∀ v, Holds kl v → Holds k v) : Computes vars l (operand <$> (a >>= Word.cast k)) := by
  have h : (a >>= Word.cast k) = a := by
    rcases ha with ⟨w, rfl, hw⟩ | rfl
    · exact cast_of_holds hk (hheld w hw)
    · rfl
  rw [h]
  exact hl

private theorem computes_ofLong (hk : k.isIntLike) (hl : Computes vars l (operand <$> a)) (ha : Fits .long a) :
    Computes vars (Lowering.convertPrim .long k l) (operand <$> (a >>= Word.cast k)) := by
  have hlong : k ≠ .long := by rintro rfl; cases hk
  have hform : Lowering.convertPrim .long k l = Lowering.narrow (some k) true (.num "l2i" [l]) := by
    cases k with
    | byte | short | char | int => rfl
    | bool | long | float | double => cases hk
  have h := (hl.num1 (show isName "l2i".toList by decide)).narrow hk true
  rw [bind_assoc] at h
  rw [hform]
  refine h.simulates_one ha fun v hv => ?_
  obtain ⟨x, rfl⟩ := hv.exists_long
  rw [Word.cast, if_neg hlong]
  show (callHelper "l2i" [ofLongBits x] >>= cut k true) = _
  rw [callHelper_l2i, pure_bind, cut_ofBits hk]

private theorem computes_toLong (hkl : kl.isIntLike) (hl : Computes vars l (operand <$> a)) (ha : Fits kl a) :
    Computes vars (Lowering.convertPrim kl .long l) (operand <$> (a >>= Word.cast .long)) := by
  have hform : Lowering.convertPrim kl .long l = .num "i2j" [l] := by
    cases kl with
    | byte | short | char | int => rfl
    | bool | long | float | double => cases hkl
  rw [hform]
  refine (hl.num1 (show isName "i2j".toList by decide)).simulates_one ha fun v hv => ?_
  obtain ⟨x, rfl⟩ := hv.exists_int hkl
  exact callHelper_i2j x

private theorem convertPrim_intLike (hkl : kl.isIntLike) (hk : k.isIntLike) (hne : kl ≠ k)
    (hwiden : ¬(kl = .byte ∧ k = .short)) : Lowering.convertPrim kl k l = Lowering.narrowTo k l := by
  unfold Lowering.convertPrim
  rw [if_neg hne]
  cases kl with
  | byte =>
    cases k with
    | short => exact absurd ⟨rfl, rfl⟩ hwiden
    | byte | char | int => rfl
    | bool | long | float | double => cases hk
  | short | char | int =>
    cases k with
    | byte | short | char | int => rfl
    | bool | long | float | double => cases hk
  | bool | long | float | double => cases hkl

private theorem computes_ofInt (hkl : kl.isIntLike) (hk : k.isIntLike) (hne : kl ≠ k)
    (hl : Computes vars l (operand <$> a)) (ha : Fits kl a) :
    Computes vars (Lowering.convertPrim kl k l) (operand <$> (a >>= Word.cast k)) := by
  have hk' : k.isIntLike || k == .long := by simp [hk]
  have hlong : k ≠ .long := by rintro rfl; cases hk
  by_cases hwiden : kl = .byte ∧ k = .short
  · -- the one conversion between different kinds that is left out
    obtain ⟨rfl, rfl⟩ := hwiden
    exact computes_unchanged hk' hl ha fun v hv => hv.short_of_byte
  · rw [convertPrim_intLike hkl hk hne hwiden, narrowTo_eq hk]
    refine (hl.narrow hk true).simulates_one ha fun v hv => ?_
    obtain ⟨x, rfl⟩ := hv.exists_int hkl
    rw [Word.cast, if_neg hlong]
    exact cut_ofBits hk true x

private theorem computes_cast (p : Program) (hkl : kl.isIntLike || kl == .long) (hk : k.isIntLike || k == .long)
    (hl : Computes vars l (operand <$> a)) (ha : Fits kl a) :
    Computes vars (Lowering.convert p (.prim kl) (.prim k) l) (operand <$> (a >>= Word.cast k)) := by
  by_cases heq : kl = k
  · subst heq
    rw [Lowering.convert, if_pos rfl]
    exact computes_unchanged hk hl ha fun v hv => hv
  · rw [Lowering.convert, if_neg (by simpa using heq)]
    simp only [Bool.or_eq_true, beq_iff_eq] at hkl hk
    rcases hkl with hkl | rfl <;> rcases hk with hk | rfl
    · exact computes_ofInt hkl hk heq hl ha
    · exact computes_toLong hkl hl ha
    · exact computes_ofLong hk hl ha
    · exact absurd rfl heq

end Operators

/-! ### Lowering -/

/-- The variables of the target hold the values of the locals they are named for. -/
def Related (types : List Ty) (names : List String) (locals : Nat → Option Word) (vars : String → Option Operand) :
    Prop :=
  ∀ id k name w, types[id]? = some (.prim k) → k.isFloating = false → names[id]? = some name → locals id = some w →
    vars name = some (operand w)

section Lowering

open HaxeBackend.Lowering

variable {types : List Ty} {locals : Nat → Option Word} {vars : String → Option Operand} {s : Scope} {st : State}

/-- An expression is lowered without a change of the state, to a text with its value. -/
private def Lowers (locals : Nat → Option Word) (vars : String → Option Operand) (s : Scope) (st : State)
    (e : HaxeBackend.Expr) : Prop :=
  ∃ t, Runs (lowerExpr s e) st t st ∧ Computes vars t (operand <$> evaluate locals e)

private theorem Lowers.binary {op : BinaryOp} {l r : HaxeBackend.Expr} {k : Prim} (hl : Lowers locals vars s st l)
    (hr : Lowers locals vars s st r)
    (h : ∀ {tl tr}, Computes vars tl (operand <$> evaluate locals l) →
      Computes vars tr (operand <$> evaluate locals r) → Computes vars (Lowering.binary op tl tr (.prim k))
        (operand <$> (do let v ← evaluate locals l; let w ← evaluate locals r; Word.binary op k v w))) :
    Lowers locals vars s st (.binary op l r (.prim k)) := by
  obtain ⟨tl, hrunl, hcl⟩ := hl
  obtain ⟨tr, hrunr, hcr⟩ := hr
  refine ⟨Lowering.binary op tl tr (.prim k), ?_, ?_⟩
  · exact runs_binary hrunl hrunr op (.prim k)
  · rw [evaluate]
    exact h hcl hcr

private theorem Lowers.unary {op : UnaryOp} {e : HaxeBackend.Expr} {k : Prim} (he : Lowers locals vars s st e)
    (h : ∀ {t}, Computes vars t (operand <$> evaluate locals e) → Computes vars (Lowering.unary op t (.prim k))
      (operand <$> (evaluate locals e >>= Word.unary op k))) :
    Lowers locals vars s st (.unary op e (.prim k)) := by
  obtain ⟨t, hrun, hc⟩ := he
  refine ⟨Lowering.unary op t (.prim k), ?_, ?_⟩
  · exact runs_unary hrun op (.prim k)
  · rw [evaluate]
    exact h hc

private theorem Lowers.cast {e : HaxeBackend.Expr} {ke k : Prim} (htype : e.type = .ok (.prim ke))
    (he : Lowers locals vars s st e)
    (h : ∀ {t}, Computes vars t (operand <$> evaluate locals e) →
      Computes vars (convert s.program (.prim ke) (.prim k) t) (operand <$> (evaluate locals e >>= Word.cast k))) :
    Lowers locals vars s st (.cast e (.prim k)) := by
  obtain ⟨t, hrun, hc⟩ := he
  refine ⟨convert s.program (.prim ke) (.prim k) t, ?_, ?_⟩
  · exact runs_cast htype hrun k
  · rw [evaluate]
    exact h hc

private theorem lowers_readLocal (hlocals : Valued types locals) (hnames : Named types s.locals)
    (hvars : Related types s.locals locals vars) {id : Nat} {k : Prim} (hk : k.isFloating = false)
    (h : types[id]? = some (.prim k)) : Lowers locals vars s st (.readLocal id (.prim k)) := by
  obtain ⟨w, hw, -⟩ := hlocals id k h hk
  obtain ⟨name, hname, hvariable⟩ := hnames id _ h
  refine ⟨.var name, runs_readLocal hname (.prim k), ?_⟩
  rw [evaluate, hw]
  exact computes_var hvariable (hvars id k name w h hk hname hw)

private theorem Typed.lowers (hlocals : Valued types locals) (hnames : Named types s.locals)
    (hvars : Related types s.locals locals vars)
    {e : HaxeBackend.Expr} {k : Prim} (h : Typed types e k) : Lowers locals vars s st e := by
  induction h with
  | int value hk h => exact ⟨.int value, rfl, computes_int value⟩
  | long value => exact ⟨.long value, rfl, computes_long value⟩
  | bool value => exact ⟨.bool value, rfl, computes_bool value⟩
  | readLocal hk h => exact lowers_readLocal hlocals hnames hvars hk h
  | @intBinary op _ _ _ _ _ hop hl hr hkl hkr hk ihl ihr =>
    -- comparison is the one operator on ints whose helper has a name of its own
    by_cases hcmp : op = .cmp
    · subst hcmp
      exact ihl.binary ihr fun hcl hcr => computes_cmp hkl hkr hk hcl hcr (hl.fits hlocals) (hr.fits hlocals)
    · have hop' : isArithmetic op || op.isShift := by simpa [hcmp] using hop
      exact ihl.binary ihr fun hcl hcr =>
        computes_intBinary hop' hkl hkr hk hcl hcr (hl.fits hlocals) (hr.fits hlocals)
  | intOrder hop hl hr hkl hkr ihl ihr =>
    exact ihl.binary ihr fun hcl hcr => computes_order hop hkl hkr hcl hcr (hl.fits hlocals) (hr.fits hlocals)
  | longBinary hop hl hr ihl ihr =>
    exact ihl.binary ihr fun hcl hcr => computes_longBinary hop hcl hcr (hl.fits hlocals) (hr.fits hlocals)
  | longShift hop hl hr hkr ihl ihr =>
    exact ihl.binary ihr fun hcl hcr => computes_longShift hop hkr hcl hcr (hl.fits hlocals) (hr.fits hlocals)
  | longCompare hl hr hk ihl ihr =>
    exact ihl.binary ihr fun hcl hcr => computes_lcmp hk hcl hcr (hl.fits hlocals) (hr.fits hlocals)
  | boolBinary hop hl hr ihl ihr =>
    exact ihl.binary ihr fun hcl hcr => computes_boolBinary hop hcl hcr (hl.fits hlocals) (hr.fits hlocals)
  | equality hop hl hr hk ihl ihr =>
    exact ihl.binary ihr fun hcl hcr => computes_equality hop hk hcl hcr (hl.fits hlocals) (hr.fits hlocals)
  | intUnary hop he hke hk ih => exact ih.unary fun hc => computes_intUnary hop hke hk hc (he.fits hlocals)
  | longUnary hop he ih => exact ih.unary fun hc => computes_longUnary hop hc (he.fits hlocals)
  | boolNot he ih => exact ih.unary fun hc => computes_boolNot hc (he.fits hlocals)
  | cast he hke hk ih => exact ih.cast he.type fun hc => computes_cast s.program hke hk hc (he.fits hlocals)

/-- The text that an integer expression of a body is lowered to has the value of the expression: it reads as a term
that evaluates to the same value, in the range of the kind of the expression, or divides by zero when the expression
does. -/
theorem lowerExpr_preserves_value (p : Program) (options : GenOptions) (site : BodySite) (body : Body)
    {locals : Nat → Option Word} {vars : String → Option Operand}
    (hlocals : Valued (body.locals.toList.map LocalVar.type) locals)
    (hvars : Related (body.locals.toList.map LocalVar.type) (scopeOf p options site body).locals locals vars)
    {e : HaxeBackend.Expr} {k : Prim} (he : Typed (body.locals.toList.map LocalVar.type) e k) (st : State) :
    ∃ t u, (lowerExpr (scopeOf p options site body) e).run.run st = (.ok t, st) ∧
      read t.text = some u ∧ u.eval vars = operand <$> evaluate locals e ∧
      ((∃ w, evaluate locals e = pure w ∧ Holds k w) ∨ evaluate locals e = throw .divisionByZero) := by
  have hlower : Lowers locals vars (scopeOf p options site body) st e :=
    he.lowers hlocals (named_scopeOf p options site body) hvars
  obtain ⟨t, hrun, u, hterm, heval⟩ := hlower
  exact ⟨t, u, hrun, read_text hterm, heval, he.fits hlocals⟩

/-- A byte, whose name is a word of the target, and an int. -/
private def smallAndLarge : Body where
  locals := #[⟨"true", .prim .byte⟩, ⟨"n", .prim .int⟩]

private def smallAndLargeSite : BodySite := ⟨[], false, none, .own⟩

/-- The smallest byte and the largest int. -/
private def smallestAndLargest (id : Nat) : Option Word :=
  if id = 0 then some (.int (-128)) else if id = 1 then some (.int 2147483647) else none

private def smallestAndLargestVars (name : String) : Option Operand :=
  if name = "true_" then some (.int (-128)) else if name = "n" then some (.int 2147483647) else none

private theorem locals_smallAndLarge : (scopeOf .empty {} smallAndLargeSite smallAndLarge).locals = ["true_", "n"] := by
  decide

/-- The difference of the smallest byte and the largest int, as a byte: it leaves the range of ints and that of
bytes. -/
theorem lowerExpr_preserves_value_wraps :
    ∃ t u, (lowerExpr (scopeOf .empty {} smallAndLargeSite smallAndLarge)
        (.binary .sub (.readLocal 0 (.prim .byte)) (.readLocal 1 (.prim .int)) (.prim .byte))).run.run {} =
        (.ok t, {}) ∧
      read t.text = some u ∧ u.eval smallestAndLargestVars = pure (.int (-127)) := by
  have hlocals : Valued (smallAndLarge.locals.toList.map LocalVar.type) smallestAndLargest := by
    intro id k h _
    match id, h with
    | 0, h => cases h; exact ⟨_, rfl, by decide, by decide⟩
    | 1, h => cases h; exact ⟨_, rfl, trivial⟩
  have hvars : Related (smallAndLarge.locals.toList.map LocalVar.type)
      (scopeOf .empty {} smallAndLargeSite smallAndLarge).locals smallestAndLargest smallestAndLargestVars := by
    rw [locals_smallAndLarge]
    intro id k name w h _ hname hw
    match id, h, hname, hw with
    | 0, h, hname, hw => cases hname; cases hw; rfl
    | 1, h, hname, hw => cases hname; cases hw; rfl
  have htyped : Typed (smallAndLarge.locals.toList.map LocalVar.type)
      (.binary .sub (.readLocal 0 (.prim .byte)) (.readLocal 1 (.prim .int)) (.prim .byte)) .byte :=
    .intBinary rfl (.readLocal rfl rfl) (.readLocal rfl rfl) rfl rfl rfl
  obtain ⟨t, u, hrun, hread, heval, -⟩ :=
    lowerExpr_preserves_value .empty {} smallAndLargeSite smallAndLarge hlocals hvars htyped {}
  exact ⟨t, u, hrun, hread, heval⟩

end Lowering

end HaxeBackend.Arithmetic
