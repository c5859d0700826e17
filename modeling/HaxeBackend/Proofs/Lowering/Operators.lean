import HaxeBackend.Lowering.Expr
import HaxeBackend.Proofs.Target.Scan
import Mathlib.Tactic.SplitIfs

/-!
# What operators pass on

Operators and conversions are made of helpers and of the operators of the target, so what holds of these forms
(`Composes`) holds of every operator and conversion between primitive kinds.  Much that is read off expressions (the
literals they use, the caught values they use) belongs to the operands only: helpers, conversions and calls pass it on
from left to right (`PassedOn`).  Lowering then keeps it in every operator, conversion and call that it makes.
-/

namespace HaxeBackend.Lowering

open Target (helperNames)

/-! ### Forms of operators -/

/-- A property of expressions, indexed by what they have, that helpers and operators have when their operands do. -/
structure Composes {β : Type} (Q : β → Target.Expr → Prop) (nothing : β) (join : β → β → β) : Prop where
  join_nothing : ∀ a, join a nothing = a
  int : ∀ value, Q nothing (.int value)
  helper : ∀ {name a t}, name ∈ helperNames → Q a t → Q a (.num name [t])
  helperOfTwo : ∀ {name a b l r}, name ∈ helperNames → Q a l → Q b r → Q (join a b) (.num name [l, r])
  operator : ∀ op {a b l r}, Q a l → Q b r → Q (join a b) (.binary op l r)
  negate : ∀ {a t}, Q a t → Q a (.negate t)
  not : ∀ {a t}, Q a t → Q a (.not t)
  complement : ∀ {a t}, Q a t → Q a (.complement t)

private theorem long_mem_helperNames (op : BinaryOp) : "l" ++ op.name ∈ helperNames := by cases op <;> decide

private theorem int_mem_helperNames (op : BinaryOp) : needsIntHelper op = true → "i" ++ op.name ∈ helperNames := by
  cases op <;> decide

private theorem comparison_mem_helperNames (op : BinaryOp) : op.isComparisonHelper = true → op.name ∈ helperNames := by
  cases op <;> decide

namespace Composes

variable {β : Type} {Q : β → Target.Expr → Prop} {nothing : β} {join : β → β → β} {a b : β} {l r t : Target.Expr}

private theorem narrow (h : Composes Q nothing join) (ht : Q a t) (kind : Option Prim) (isHelper : Bool) :
    Q a (Lowering.narrow kind isHelper t) := by
  unfold Lowering.narrow
  split
  · split
    · exact ht
    · exact h.helper (by decide) ht
  · exact h.helper (by decide) ht
  · exact h.helper (by decide) ht
  · exact h.helper (by decide) ht
  · exact ht

theorem binary (h : Composes Q nothing join) (hl : Q a l) (hr : Q b r) (op : BinaryOp) (type : Ty) :
    Q (join a b) (Lowering.binary op l r type) := by
  have hraw : Q (join a b) (rawBinary op l r type.prim?).1 := by
    unfold rawBinary
    split_ifs with hcomparison hlong hint hbool
    · exact h.helperOfTwo (comparison_mem_helperNames op hcomparison) hl hr
    · exact h.helperOfTwo (long_mem_helperNames op) hl hr
    · exact h.helperOfTwo (int_mem_helperNames op (Bool.and_eq_true_iff.1 hint).2) hl hr
    · split
      · exact h.helperOfTwo (by decide) hl hr
      · exact h.helperOfTwo (by decide) hl hr
      · exact h.operator _ hl hr
      · exact h.operator _ hl hr
    · exact h.operator _ hl hr
  exact h.narrow hraw _ _

theorem long (h : Composes Q nothing join) (value : Int64) : Q nothing (.long value) := by
  have hname : "lnew" ∈ helperNames := by decide
  have hhalves := h.helperOfTwo hname (h.int (value >>> 32).toInt32) (h.int value.toInt32)
  rwa [h.join_nothing] at hhalves

theorem unary (h : Composes Q nothing join) (ht : Q a t) (op : UnaryOp) (type : Ty) :
    Q a (Lowering.unary op t type) := by
  unfold Lowering.unary
  split
  · exact h.helper (by decide) ht
  · exact h.narrow (h.negate ht) _ _
  · exact h.not ht
  · have hxor := h.helperOfTwo (show "lxor" ∈ helperNames by decide) ht (h.long (-1))
    rwa [h.join_nothing] at hxor
  · exact h.narrow (h.complement ht) _ _

private theorem narrowTo (h : Composes Q nothing join) (ht : Q a t) (kind : Prim) :
    Q a (Lowering.narrowTo kind t) := by
  unfold Lowering.narrowTo
  split
  · exact h.helper (by decide) ht
  · exact h.helper (by decide) ht
  · exact h.helper (by decide) ht
  · exact ht

private theorem toInt (h : Composes Q nothing join) (ht : Q a t) (source : Prim) : Q a (Lowering.toInt source t) := by
  unfold Lowering.toInt
  split
  · exact h.helper (by decide) ht
  · exact h.helper (by decide) ht
  · exact h.helper (by decide) ht
  · exact h.helper (by decide) ht
  · exact ht

theorem convertPrim (h : Composes Q nothing join) (ht : Q a t) (source target : Prim) :
    Q a (Lowering.convertPrim source target t) := by
  have hint := h.toInt ht source
  have hcut := h.narrowTo ht target
  have hboth := h.narrowTo hint target
  unfold Lowering.convertPrim
  split
  · exact ht
  · split
    · exact h.helper (by decide) (h.helper (by decide) ht)
    · exact h.helper (by decide) ht
    · exact h.helper (by decide) hint
    · exact h.helper (by decide) ht
    · exact h.helper (by decide) ht
    · exact ht
    · exact h.helper (by decide) ht
    · exact h.helper (by decide) ht
    · exact h.helper (by decide) ht
    · exact hboth
    · exact hboth
    · exact hboth
    · exact h.helper (by decide) ht
    · exact h.helper (by decide) ht
    · exact ht
    · exact ht
    · exact hcut

end Composes

/-! ### What is passed on -/

/-- What operators and calls have is what their operands have, from left to right. -/
structure PassedOn {β : Type} (read : Target.Expr → List β) : Prop where
  int : ∀ value, read (.int value) = []
  num : ∀ helper args, read (.num helper args) = args.flatMap read
  natives : ∀ helper args, read (.natives helper args) = args.flatMap read
  invoke : ∀ base name args, read (.invoke base name args) = read base ++ args.flatMap read
  binary : ∀ op left right, read (.binary op left right) = read left ++ read right
  negate : ∀ operand, read (.negate operand) = read operand
  not : ∀ operand, read (.not operand) = read operand
  complement : ∀ operand, read (.complement operand) = read operand
  castTo : ∀ operand tag, read (.castTo operand tag) = read operand
  template : ∀ pattern operand, read (.template pattern operand) = read operand

namespace PassedOn

variable {β : Type} {read : Target.Expr → List β} {s : Scope}

/-- Some of what is passed on is passed on. -/
theorem filter (h : PassedOn read) (keep : β → Bool) : PassedOn fun e => (read e).filter keep where
  int := fun value => by rw [h.int, List.filter_nil]
  num := fun helper args => by rw [h.num, List.filter_flatMap]
  natives := fun helper args => by rw [h.natives, List.filter_flatMap]
  invoke := fun base name args => by rw [h.invoke, List.filter_append, List.filter_flatMap]
  binary := fun op left right => by rw [h.binary, List.filter_append]
  negate := fun operand => by rw [h.negate]
  not := fun operand => by rw [h.not]
  complement := fun operand => by rw [h.complement]
  castTo := fun operand tag => by rw [h.castTo]
  template := fun pattern operand => by rw [h.template]

/-! #### Operators -/

private theorem composes (h : PassedOn read) : Composes (fun items t => read t = items) [] (· ++ ·) where
  join_nothing := List.append_nil
  int := h.int
  helper := fun _ ht => by rw [h.num, List.flatMap_singleton, ht]
  helperOfTwo := fun _ hl hr => by rw [h.num, List.flatMap_cons, List.flatMap_singleton, hl, hr]
  operator := fun op _ _ _ _ hl hr => by rw [h.binary, hl, hr]
  negate := fun ht => by rw [h.negate, ht]
  not := fun ht => by rw [h.not, ht]
  complement := fun ht => by rw [h.complement, ht]

theorem read_binary (h : PassedOn read) (op : BinaryOp) (left right : Target.Expr) (type : Ty) :
    read (Lowering.binary op left right type) = read left ++ read right :=
  h.composes.binary rfl rfl op type

theorem read_long (h : PassedOn read) (value : Int64) : read (.long value) = [] := h.composes.long value

theorem read_unary (h : PassedOn read) (op : UnaryOp) (operand : Target.Expr) (type : Ty) :
    read (unary op operand type) = read operand :=
  h.composes.unary rfl op type

/-! #### Conversions -/

theorem read_convert (h : PassedOn read) (p : Program) (source target : Ty) (operand : Target.Expr) :
    read (convert p source target operand) = read operand := by
  unfold convert
  split
  · rfl
  · split
    · exact h.composes.convertPrim rfl _ _
    · rw [unbox, h.natives, List.flatMap_singleton]
    · rw [box, h.natives, List.flatMap_singleton]
    · exact h.castTo _ _

theorem read_asArray (h : PassedOn read) (type : Ty) (value : Target.Expr) :
    read (asArray type value) = read value := by
  unfold asArray
  split
  · rfl
  · exact h.castTo _ _

/-! #### Calls -/

private theorem read_toNative (h : PassedOn read) (p : Program) (type : Ty) (value : Target.Expr) :
    read (toNative p type value) = read value := by
  unfold toNative
  split
  · rw [h.natives, List.flatMap_singleton]
  · split
    · exact h.template _ _
    · rfl

private theorem read_fromNative (h : PassedOn read) (p : Program) (type : Ty) (value : Target.Expr) :
    read (fromNative p type value) = read value := by
  unfold fromNative
  split
  · rw [h.castTo, h.natives, List.flatMap_singleton]
  · split
    · exact h.template _ _
    · rfl

/-- No argument is left out when there is one for each parameter. -/
theorem read_nativeArgs (h : PassedOn read) (p : Program) {m : Method} {args : List Target.Expr}
    (harity : args.length = m.params.length) : (nativeArgs p m args).flatMap read = args.flatMap read := by
  unfold nativeArgs
  generalize m.params = params at harity
  induction params generalizing args with
  | nil =>
    obtain rfl := List.length_eq_zero_iff.1 harity
    rfl
  | cons param params ih =>
    cases args with
    | nil => cases harity
    | cons value args =>
      rw [List.zipWith_cons_cons, List.flatMap_cons, List.flatMap_cons, h.read_toNative,
        ih (Nat.succ.inj harity)]

theorem read_callOf (h : PassedOn read) {entry : MethodEntry} (base : Target.Expr) {args : List Target.Expr}
    (harity : args.length = entry.method.params.length) :
    read (callOf s entry base args) = read base ++ args.flatMap read := by
  unfold callOf
  dsimp only
  split
  · rw [h.read_fromNative, h.invoke, h.read_nativeArgs _ harity]
  · exact h.invoke _ _ _

end PassedOn

end HaxeBackend.Lowering
