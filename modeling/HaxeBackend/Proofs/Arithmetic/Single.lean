import HaxeBackend.Proofs.Arithmetic.Variables
import HaxeBackend.Proofs.Lowering.Operators
import HaxeBackend.Proofs.Target.Shape

/-!
# Single precision

The target computes floating-point numbers in double precision, and a value of type float is to have single precision.
A conversion to float rounds, and so do the literals and the locals that an expression starts from; an operator between
two floats does not.  The key fact is `float_isSingle_iff`: the text of a float expression has a value of single
precision for every way to compute exactly when the expression is `IsRounded`, that is, when no operator stands behind
its signs and the conversions that do nothing.
-/

namespace HaxeBackend.Arithmetic

open Target (Shape Interpretation HasShape shapeOf? hasShape_token hasShape_num isTokenChar helperNames)

variable {V : Type} {types : List Ty} {names : List String}

/-! ### Rounded values -/

/-- Rounding to single precision does not change the value. -/
def IsSingle (m : Interpretation V) (x : V) : Prop := m.call "N.d2f" [x] = x

/-- What is asked of the target: rounding twice is rounding once, and longs, truth values, literals, locals and negated
values of type float have single precision. -/
structure SupportsSingle (types : List Ty) (names : List String) (m : Interpretation V) : Prop where
  round : ∀ x, IsSingle m (m.call "N.d2f" [x])
  ofLong : ∀ x, IsSingle m (m.call "N.j2f" [x])
  ofTruth : ∀ x, IsSingle m (m.call "N.z2i" [x])
  negate : ∀ x, IsSingle m x → IsSingle m (m.call "-" [x])
  literal : ∀ bits, IsSingle m (m.word (Target.singleText bits))
  readLocal : ∀ (id : Nat) name, types[id]? = some (.prim .float) → names[id]? = some name → IsSingle m (m.word name)

/-- An expression of type float whose value was rounded last: a conversion from another kind, a literal or a local,
behind signs and conversions from float to float. -/
def IsRounded : Expr → Prop
  | .literal .. | .readLocal .. => True
  | .unary .neg operand _ => IsRounded operand
  | .cast operand _ => operand.type = .ok (.prim .float) → IsRounded operand
  | _ => False

/-! ### Expressions of primitive values -/

/-- Constants, locals, operators and conversions of primitive kinds. -/
inductive Primitive (types : List Ty) : Expr → Prim → Prop where
  | bool (value : Bool) : Primitive types (.literal (.bool value) (.prim .bool)) .bool
  | int {k : Prim} (value : Int32) (hk : k.isIntLike) : Primitive types (.literal (.int value) (.prim k)) k
  | long (value : Int64) : Primitive types (.literal (.long value) (.prim .long)) .long
  | float (bits : UInt32) : Primitive types (.literal (.float bits) (.prim .float)) .float
  | double (bits : UInt64) : Primitive types (.literal (.double bits) (.prim .double)) .double
  | readLocal {id : Nat} {k : Prim} (h : types[id]? = some (.prim k)) : Primitive types (.readLocal id (.prim k)) k
  | binary {l r : Expr} {kl kr : Prim} (op : BinaryOp) (k : Prim) (hl : Primitive types l kl)
      (hr : Primitive types r kr) : Primitive types (.binary op l r (.prim k)) k
  | unary {e : Expr} {k : Prim} (op : UnaryOp) (he : Primitive types e k) : Primitive types (.unary op e (.prim k)) k
  | cast {e : Expr} {ke : Prim} (k : Prim) (he : Primitive types e ke) : Primitive types (.cast e (.prim k)) k

theorem Primitive.type {e : Expr} {k : Prim} (h : Primitive types e k) : e.type = .ok (.prim k) := by
  cases h <;> rfl

/-! ### Shapes of operators -/

private theorem isTokenChar_of_mem_helperNames : ∀ name ∈ helperNames, name.toList.all isTokenChar := by
  decide

/-- Operators and conversions are read as something when their operands are. -/
private theorem composes_hasShape :
    Lowering.Composes (fun (_ : Unit) t => ∃ u, HasShape t u) () (fun _ _ => ()) where
  join_nothing := fun _ => rfl
  int := Target.exists_hasShape_int
  helper := fun hname ⟨_, hu⟩ => ⟨_, hasShape_num (isTokenChar_of_mem_helperNames _ hname) hu.arg⟩
  helperOfTwo := fun hname ⟨_, hu⟩ ⟨_, hv⟩ =>
    ⟨_, hasShape_num (isTokenChar_of_mem_helperNames _ hname) (hu.args hv.arg)⟩
  operator := fun op _ _ _ _ ⟨_, hu⟩ ⟨_, hv⟩ => ⟨_, hu.binary op hv⟩
  negate := fun ⟨_, hu⟩ => ⟨_, hu.negate⟩
  not := fun ⟨_, hu⟩ => ⟨_, hu.not⟩
  complement := fun ⟨_, hu⟩ => ⟨_, hu.complement⟩

/-- A variable is one word. -/
private theorem isToken_of_isVariable {name : String} (h : isVariable name) : Target.IsToken name.toList := by
  have hword : ∀ c, isWordChar c → isTokenChar c := by
    intro c hc
    simp only [isTokenChar, Bool.and_eq_true, decide_eq_true_eq]
    refine ⟨⟨⟨?_, ?_⟩, ?_⟩, ?_⟩ <;> (rintro rfl; revert hc; decide)
  simp only [isVariable, isName, Bool.and_eq_true, Bool.not_eq_true', List.isEmpty_eq_false_iff] at h
  obtain ⟨⟨⟨⟨hall, hne⟩, -⟩, -⟩, -⟩ := h
  exact ⟨hne, List.all_eq_true.2 fun c hc => hword c (List.all_eq_true.1 hall c hc)⟩

/-! ### What was rounded last -/

/-- Values that only tell whether they were rounded last: everything that has to have single precision has it, and what
operators compute does not. -/
def lastRounded : Interpretation Bool where
  word _ := true
  call head args := head = "N.d2f" || head = "N.j2f" || head = "N.z2i" || head = "-" && args.all id
  operation _ _ _ := false

private theorem isSingle_lastRounded {x : Bool} : IsSingle lastRounded x ↔ x = true := eq_comm

private theorem supportsSingle_lastRounded : SupportsSingle types names lastRounded where
  round := fun _ => rfl
  ofLong := fun _ => rfl
  ofTruth := fun _ => rfl
  negate := by
    intro x h
    obtain rfl := isSingle_lastRounded.1 h
    rfl
  literal := fun _ => rfl
  readLocal := fun _ _ _ _ => rfl

/-! ### Lowering -/

section Lowering

open HaxeBackend.Lowering

variable {s : Scope} {e l r : Expr} {k : Prim}

/-- The shape of a float expression decides whether its value has single precision. -/
private def Decides (types : List Ty) (names : List String) (e : Expr) (u : Shape) : Prop :=
  (IsRounded e → ∀ (V : Type) (m : Interpretation V), SupportsSingle types names m → IsSingle m (u.eval m)) ∧
    (¬IsRounded e → u.eval lastRounded = false)

/-- The expression is lowered to a text that is read as something, which decides for floats. -/
private def Settled (types : List Ty) (s : Scope) (e : Expr) (k : Prim) : Prop :=
  ∃ t u, (∀ st, Runs (lowerExpr s e) st t st) ∧ HasShape t u ∧ (k = .float → Decides types s.locals e u)

/-- A constant or a local. -/
private theorem settled_leaf {t : Target.Expr} (hrounded : IsRounded e) (hrun : ∀ st, Runs (lowerExpr s e) st t st)
    (htoken : Target.IsToken t.text.toList)
    (hsingle : k = .float → ∀ (V : Type) (m : Interpretation V), SupportsSingle types s.locals m →
      IsSingle m (m.word t.text)) : Settled types s e k :=
  ⟨t, _, hrun, hasShape_token htoken, fun hk => ⟨fun _ => hsingle hk, fun h => absurd hrounded h⟩⟩

private theorem settled_readLocal (hnames : Named types s.locals) {id : Nat} (h : types[id]? = some (.prim k)) :
    Settled types s (.readLocal id (.prim k)) k := by
  obtain ⟨name, hname, hvariable⟩ := hnames id _ h
  have htoken : Target.IsToken (Target.Expr.var name).text.toList := isToken_of_isVariable hvariable
  refine settled_leaf trivial (fun st => runs_readLocal hname (.prim k)) htoken fun hk V m hm => ?_
  subst hk
  exact hm.readLocal id name h hname

/-- No operator between two operands rounds. -/
private theorem exists_hasShape_floatBinary (op : BinaryOp) {tl tr : Target.Expr} {ul ur : Shape} (hl : HasShape tl ul)
    (hr : HasShape tr ur) : ∃ u, HasShape (Lowering.binary op tl tr (.prim .float)) u ∧ u.eval lastRounded = false := by
  cases hop : op.isComparisonHelper with
  | true =>
    have hform : Lowering.binary op tl tr (.prim .float) = .num op.name [tl, tr] := by
      simp [Lowering.binary, rawBinary, narrow, Ty.prim?, hop]
    have hname : op.name.toList.all isTokenChar := by cases op <;> decide
    refine ⟨_, hform ▸ hasShape_num hname (hl.args hr.arg), ?_⟩
    cases op <;> rfl
  | false =>
    have hform : Lowering.binary op tl tr (.prim .float) = .binary op tl tr := by
      simp [Lowering.binary, rawBinary, narrow, Ty.prim?, Prim.isIntLike, hop]
    exact ⟨_, hform ▸ hl.binary op hr, rfl⟩

private theorem Settled.binary {kl kr : Prim} (op : BinaryOp) (k : Prim) (hl : Settled types s l kl)
    (hr : Settled types s r kr) : Settled types s (.binary op l r (.prim k)) k := by
  obtain ⟨tl, ul, hrunl, hl, -⟩ := hl
  obtain ⟨tr, ur, hrunr, hr, -⟩ := hr
  have hrun := fun st => runs_binary (hrunl st) (hrunr st) op (.prim k)
  by_cases hk : k = .float
  · subst hk
    obtain ⟨u, hu, heval⟩ := exists_hasShape_floatBinary op hl hr
    exact ⟨_, u, hrun, hu, fun _ => ⟨fun h => h.elim, fun _ => heval⟩⟩
  · obtain ⟨u, hu⟩ := composes_hasShape.binary (a := ()) (b := ()) ⟨ul, hl⟩ ⟨ur, hr⟩ op (.prim k)
    exact ⟨_, u, hrun, hu, fun h => absurd h hk⟩

private theorem Settled.unary (op : UnaryOp) (he : Settled types s e k) :
    Settled types s (.unary op e (.prim k)) k := by
  obtain ⟨t, u, hrun, hshape, hdecides⟩ := he
  have hrun' := fun st => runs_unary (hrun st) op (.prim k)
  by_cases hk : k = .float
  · subst hk
    obtain ⟨hrounded, hnot⟩ := hdecides rfl
    cases op with
    | neg =>
      refine ⟨_, _, hrun', hshape.negate, fun _ => ⟨fun h V m hm => ?_, fun h => ?_⟩⟩
      · exact hm.negate _ (hrounded h V m hm)
      · show (false || (_ && true)) = false
        rw [hnot h]
        rfl
    | not => exact ⟨_, _, hrun', hshape.not, fun _ => ⟨fun h => h.elim, fun _ => rfl⟩⟩
    | inv => exact ⟨_, _, hrun', hshape.complement, fun _ => ⟨fun h => h.elim, fun _ => rfl⟩⟩
  · obtain ⟨v, hv⟩ := composes_hasShape.unary (a := ()) ⟨u, hshape⟩ op (.prim k)
    exact ⟨_, v, hrun', hv, fun h => absurd h hk⟩

/-- The helper that makes a float of another kind. -/
private theorem convertPrim_float {ke : Prim} (hke : ke ≠ .float) (t : Target.Expr) :
    ∃ helper, (helper = "d2f" ∨ helper = "j2f" ∨ helper = "z2i") ∧ convertPrim ke .float t = .num helper [t] := by
  cases ke with
  | float => exact absurd rfl hke
  | bool => exact ⟨"z2i", by simp, rfl⟩
  | long => exact ⟨"j2f", by simp, rfl⟩
  | byte | short | char | int | double => exact ⟨"d2f", by simp, rfl⟩

private theorem exists_hasShape_toFloat {ke : Prim} (hke : ke ≠ .float) {t : Target.Expr} {u : Shape}
    (h : HasShape t u) :
    ∃ v, HasShape (convertPrim ke .float t) v ∧
      ∀ (V : Type) (m : Interpretation V), SupportsSingle types names m → IsSingle m (v.eval m) := by
  obtain ⟨helper, hhelper, hform⟩ := convertPrim_float hke t
  have hname : helper.toList.all isTokenChar := by rcases hhelper with rfl | rfl | rfl <;> decide
  refine ⟨_, hform ▸ hasShape_num hname h.arg, fun V m hm => ?_⟩
  rcases hhelper with rfl | rfl | rfl
  · exact hm.round _
  · exact hm.ofLong _
  · exact hm.ofTruth _

private theorem Settled.cast {ke : Prim} (k : Prim) (htype : e.type = .ok (.prim ke)) (he : Settled types s e ke) :
    Settled types s (.cast e (.prim k)) k := by
  obtain ⟨t, u, hrun, hshape, hdecides⟩ := he
  have hrun' := fun st => runs_cast htype (hrun st) k
  by_cases heq : ke = k
  · subst heq
    have hform : convert s.program (.prim ke) (.prim ke) t = t := if_pos rfl
    rw [hform] at hrun'
    refine ⟨t, u, hrun', hshape, fun hk => ?_⟩
    subst hk
    obtain ⟨hrounded, hnot⟩ := hdecides rfl
    exact ⟨fun h => hrounded (h htype), fun h => hnot fun hr => h fun _ => hr⟩
  · have hform : convert s.program (.prim ke) (.prim k) t = convertPrim ke k t := if_neg (by simpa using heq)
    rw [hform] at hrun'
    by_cases hk : k = .float
    · subst hk
      obtain ⟨v, hv, hsingle⟩ := exists_hasShape_toFloat heq hshape
      refine ⟨_, v, hrun', hv, fun _ => ⟨fun _ => hsingle, fun h => absurd (fun hfloat => ?_) h⟩⟩
      rw [htype] at hfloat
      cases hfloat
      exact absurd rfl heq
    · obtain ⟨v, hv⟩ := composes_hasShape.convertPrim (a := ()) ⟨u, hshape⟩ ke k
      exact ⟨_, v, hrun', hv, fun h => absurd h hk⟩

private theorem Primitive.settled (hnames : Named types s.locals) (h : Primitive types e k) : Settled types s e k := by
  induction h with
  | bool value =>
    have htoken : Target.IsToken (Target.Expr.bool value).text.toList := by cases value <;> decide
    exact settled_leaf trivial (fun _ => rfl) htoken fun hk => nomatch hk
  | int value hk =>
    obtain ⟨u, hu⟩ := Target.exists_hasShape_int value
    exact ⟨.int value, u, fun _ => rfl, hu, fun h => by subst h; cases hk⟩
  | long value =>
    obtain ⟨u, hu⟩ := composes_hasShape.long value
    exact ⟨.long value, u, fun _ => rfl, hu, fun h => nomatch h⟩
  | float bits =>
    have htoken : Target.IsToken (Target.Expr.single bits).text.toList := Target.isToken_float _ _
    exact settled_leaf trivial (fun _ => rfl) htoken fun _ V m hm => hm.literal bits
  | double bits =>
    have htoken : Target.IsToken (Target.Expr.double bits).text.toList := Target.isToken_float _ _
    exact settled_leaf trivial (fun _ => rfl) htoken fun hk => nomatch hk
  | readLocal h => exact settled_readLocal hnames h
  | binary op k _ _ ihl ihr => exact ihl.binary op k ihr
  | unary op _ ih => exact ih.unary op
  | cast k he ih => exact ih.cast k he.type

/-- A float expression of a body is lowered to a text that is read, and the value of the text has single precision in
every interpretation that supports it exactly when the expression was rounded last. -/
theorem float_isSingle_iff (p : Program) (options : GenOptions) (site : BodySite) (body : Body) {e : Expr}
    (he : Primitive (body.locals.toList.map LocalVar.type) e .float) :
    ∃ t u, (∀ st, (lowerExpr (scopeOf p options site body) e).run.run st = (.ok t, st)) ∧
      shapeOf? t.text = some u ∧
      ((∀ (V : Type) (m : Interpretation V),
          SupportsSingle (body.locals.toList.map LocalVar.type) (scopeOf p options site body).locals m →
          IsSingle m (u.eval m)) ↔ IsRounded e) := by
  obtain ⟨t, u, hrun, hshape, hdecides⟩ := he.settled (named_scopeOf p options site body)
  obtain ⟨hrounded, hnot⟩ := hdecides rfl
  refine ⟨t, u, hrun, hshape.shapeOf?, fun hall => ?_, hrounded⟩
  have hsingle := isSingle_lastRounded.1 (hall Bool lastRounded supportsSingle_lastRounded)
  by_contra hunrounded
  rw [hnot hunrounded] at hsingle
  cases hsingle

/-! ### A sum -/

/-- Two floats. -/
private def twoFloats : Body where
  locals := #[⟨"a", .prim .float⟩, ⟨"b", .prim .float⟩]

private def twoFloatsSite : BodySite := ⟨[], false, none, .own⟩

private theorem locals_twoFloats : (scopeOf .empty {} twoFloatsSite twoFloats).locals = ["a", "b"] := by decide

private def first : Expr := .readLocal 0 (.prim .float)

private def second : Expr := .readLocal 1 (.prim .float)

private def sum : Expr := .binary .add first second (.prim .float)

private def convertedSum : Expr :=
  .cast (.binary .add (.cast first (.prim .double)) (.cast second (.prim .double)) (.prim .double)) (.prim .float)

private theorem primitive_first : Primitive (twoFloats.locals.toList.map LocalVar.type) first .float := .readLocal rfl

private theorem primitive_second : Primitive (twoFloats.locals.toList.map LocalVar.type) second .float := .readLocal rfl

/-- The nearest whole number of single precision for numbers up to `2 ^ 25`: above `2 ^ 24` only even ones have it, and
the ones between go to the multiple of four. -/
private def roundWhole (x : Int) : Int :=
  if x.natAbs ≤ 16777216 ∨ x % 2 = 0 then x else if x % 4 = 1 then x - 1 else x + 1

/-- Exact sums of whole numbers, where `a` is `2 ^ 24`. -/
private def wholeNumbers : Interpretation Int where
  word text := if text = "a" then 16777216 else 1
  call head
    | [x] => if head = "-" then -x else roundWhole x
    | _ => 0
  operation symbol x y := if symbol = "+" then x + y else 0

private theorem isSingle_wholeNumbers {x : Int} : IsSingle wholeNumbers x ↔ x.natAbs ≤ 16777216 ∨ x % 2 = 0 := by
  show roundWhole x = x ↔ _
  rw [roundWhole]
  split_ifs <;> omega

private theorem isSingle_roundWhole (x : Int) : IsSingle wholeNumbers (roundWhole x) := by
  rw [isSingle_wholeNumbers, roundWhole]
  split_ifs <;> omega

private theorem supportsSingle_wholeNumbers : SupportsSingle types names wholeNumbers := by
  have hword : ∀ text, IsSingle wholeNumbers (wholeNumbers.word text) := by
    intro text
    refine isSingle_wholeNumbers.2 (.inl ?_)
    show (if text = "a" then (16777216 : Int) else 1).natAbs ≤ 16777216
    split_ifs <;> decide
  refine ⟨fun x => isSingle_roundWhole _, fun x => isSingle_roundWhole _, fun x => isSingle_roundWhole _,
    fun x h => ?_, fun bits => hword _, fun _ name _ _ => hword name⟩
  rw [isSingle_wholeNumbers] at h ⊢
  show (-x).natAbs ≤ 16777216 ∨ -x % 2 = 0
  omega

/-- The sum of two floats as doubles, converted to float, has single precision. -/
theorem float_isSingle_iff_convertedSum :
    ∃ t u, (∀ st, (lowerExpr (scopeOf .empty {} twoFloatsSite twoFloats) convertedSum).run.run st = (.ok t, st)) ∧
      shapeOf? t.text = some u ∧
      (∀ (V : Type) (m : Interpretation V), SupportsSingle (twoFloats.locals.toList.map LocalVar.type)
        (scopeOf .empty {} twoFloatsSite twoFloats).locals m → IsSingle m (u.eval m)) ∧
      IsSingle wholeNumbers (u.eval wholeNumbers) := by
  have hsum := (primitive_first.cast .double).binary .add .double (primitive_second.cast .double)
  obtain ⟨t, u, hrun, hread, hiff⟩ := float_isSingle_iff .empty {} twoFloatsSite twoFloats (hsum.cast .float)
  have hsingle := hiff.2 fun h => nomatch h
  exact ⟨t, u, hrun, hread, hsingle, hsingle Int wholeNumbers supportsSingle_wholeNumbers⟩

/-- The sum of two floats may need more than single precision, and nothing rounds it. -/
theorem float_sum_not_single :
    ∃ t u, (∀ st, (lowerExpr (scopeOf .empty {} twoFloatsSite twoFloats) sum).run.run st = (.ok t, st)) ∧
      t.text = "(a + b)" ∧ shapeOf? t.text = some u ∧
      SupportsSingle (twoFloats.locals.toList.map LocalVar.type)
        (scopeOf .empty {} twoFloatsSite twoFloats).locals wholeNumbers ∧
      ¬IsSingle wholeNumbers (u.eval wholeNumbers) := by
  have ha : HasShape (.var "a") (.word "a") := hasShape_token (by decide)
  have hb : HasShape (.var "b") (.word "b") := hasShape_token (by decide)
  have hrun : ∀ st, (lowerExpr (scopeOf .empty {} twoFloatsSite twoFloats) sum).run.run st =
      (.ok (.binary .add (.var "a") (.var "b")), st) := by
    intro st
    simp only [sum, first, second, lowerExpr, Scope.localName, locals_twoFloats]
    rfl
  refine ⟨_, _, hrun, rfl, (ha.binary .add hb).shapeOf?, supportsSingle_wholeNumbers, ?_⟩
  rw [isSingle_wholeNumbers]
  decide

end Lowering

end HaxeBackend.Arithmetic
