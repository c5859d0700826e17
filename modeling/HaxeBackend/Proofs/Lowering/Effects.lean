import HaxeBackend.Proofs.Lowering.Adapters
import HaxeBackend.Proofs.Lowering.Discernible

/-!
# Calls and allocations in lowered expressions

The text of a lowered expression shows a call exactly when the expression has an effect (`Expr.hasEffect`), provided
that what is handed through can be told from the support library.
-/

namespace HaxeBackend

/-- Whether there is a call, an allocation or a method reference anywhere in the expression. -/
def Expr.hasEffect : Expr → Bool
  | .staticCall .. | .call .. | .superCall .. | .allocate .. | .newArray .. | .capture .. => true
  | .binary _ left right _ | .element left right _ => left.hasEffect || right.hasEffect
  | .unary _ operand _ | .field operand _ _ | .arrayLength operand _ | .instanceOf operand _ _ | .cast operand _ =>
    operand.hasEffect
  | .missing _ | .literal .. | .readLocal .. | .this _ | .caught _ | .staticField .. => false

namespace Lowering

open Target (IsBalanced IsPlain helperNames)
open Target.Expr (Reveals reveals_num reveals_natives reveals_binary reveals_negate reveals_not reveals_complement
  reveals_castTo)

variable {s : Scope} {p : Program} {calls calls' : Bool} {operand left right : Target.Expr}

/-! ### Operators -/

private theorem composes_reveals : Composes Reveals false (· || ·) where
  join_nothing := Bool.or_false
  int := Target.Expr.reveals_int
  helper := fun hname h => reveals_num hname h.arg
  helperOfTwo := fun hname h h' => reveals_num hname (h.args h')
  operator := fun op _ _ _ _ h h' => reveals_binary op h h'
  negate := reveals_negate
  not := reveals_not
  complement := reveals_complement

/-! ### Conversions -/

private theorem box_mem_helperNames (kind : Prim) : "box" ++ boxKind kind ∈ helperNames := by cases kind <;> decide

private theorem unbox_mem_helperNames (kind : Prim) : "unbox" ++ boxKind kind ∈ helperNames := by cases kind <;> decide

private theorem reveals_convert (hp : Discernible p) (h : Reveals calls operand) (source target : Ty) :
    Reveals calls (convert p source target operand) := by
  unfold convert
  split
  · exact h
  · split
    · exact composes_reveals.convertPrim h _ _
    · exact reveals_natives (unbox_mem_helperNames _) h.arg
    · exact reveals_natives (box_mem_helperNames _) h.arg
    · exact reveals_castTo h (hp.isPlain_typeTag _)

private theorem reveals_asArray (h : Reveals calls operand) (type : Ty) : Reveals calls (asArray type operand) := by
  unfold asArray
  split
  · exact h
  · exact reveals_castTo h (by decide)

/-! ### Calls -/

section Calls

variable (hp : Discernible p)

include hp

private theorem isBalanced_toNative (type : Ty) (h : Reveals calls operand) :
    IsBalanced (toNative p type operand).text.toList := by
  unfold toNative
  split
  · exact (reveals_natives (by decide) h.arg).isBalanced
  · split
    · rename_i pattern hpattern
      obtain ⟨c, hc, hpattern⟩ := exists_patternOf? hpattern
      exact Target.Expr.isBalanced_template h.isBalanced (hp.toNative c hc pattern hpattern)
    · exact h.isBalanced

private theorem isBalanced_nativeArgs (m : Method) {args : List Target.Expr}
    (h : ∀ t ∈ args, ∃ calls, Reveals calls t) : ∀ t ∈ nativeArgs p m args, IsBalanced t.text.toList := by
  intro t ht
  rw [nativeArgs, ← List.map_uncurry_zip_eq_zipWith] at ht
  obtain ⟨⟨param, value⟩, hmem, rfl⟩ := List.mem_map.1 ht
  obtain ⟨calls, hvalue⟩ := h value (List.of_mem_zip hmem).2
  exact isBalanced_toNative hp param.type hvalue

private theorem reveals_fromNative (type : Ty) (h : Reveals true operand) :
    Reveals true (fromNative p type operand) := by
  unfold fromNative
  split
  · exact reveals_castTo (reveals_natives (by decide) h.arg) (hp.isPlain_typeTag type)
  · split
    · rename_i pattern hpattern
      obtain ⟨c, hc, hpattern⟩ := exists_patternOf? hpattern
      obtain ⟨hquote, hself⟩ := hp.fromNative c hc pattern hpattern
      exact Target.Expr.reveals_template h hquote hself
    · exact h

end Calls

private theorem mem_of_getMethod? {className name : Name} {type : MethodTy} {entry : MethodEntry}
    (h : p.getMethod? className name type = some entry) :
    entry.owner ∈ p.classes ∧ entry.method ∈ entry.owner.methods := by
  obtain ⟨c, hc, hentry⟩ := List.exists_of_findSome?_eq_some h
  obtain ⟨m, hm, rfl⟩ := Option.map_eq_some_iff.1 hentry
  exact ⟨Program.mem_of_mem_ancestors hc, (ClassModel.of_findMethod? hm).1⟩

/-- The method that a call resolves to belongs to a class of the program. -/
private theorem mem_of_resolve? {r : MethodRef} {special : Bool} {entry : MethodEntry}
    (h : p.resolve? r special = some entry) : entry.owner ∈ p.classes ∧ entry.method ∈ entry.owner.methods := by
  unfold Program.resolve? at h
  split at h
  · unfold Program.resolveSpecial? at h
    split at h
    · cases h
    · rename_i owner howner
      have hmem := (Program.mem_of_find? howner).1
      dsimp only at h
      split at h
      · obtain ⟨m, hm, rfl⟩ := Option.map_eq_some_iff.1 h
        exact ⟨hmem, (ClassModel.of_findMethod? hm).1⟩
      · rcases Option.or_eq_some_iff.1 ((Option.orElse_eq_or ..).symm.trans h) with h | ⟨-, h⟩
        · obtain ⟨c, hc, hentry⟩ := List.exists_of_findSome?_eq_some h
          obtain ⟨m, hm, rfl⟩ := Option.map_eq_some_iff.1 hentry
          exact ⟨Program.mem_of_mem_chain hmem hc, (ClassModel.of_findMethod? (Option.filter_eq_some_iff.1 hm).1).1⟩
        · exact mem_of_getMethod? h
  · exact mem_of_getMethod? h

private theorem looks_member (r : MethodRef) (special : Bool) :
    Looks (s.resolveMethod r special) fun entry =>
      entry.owner ∈ s.program.classes ∧ entry.method ∈ entry.owner.methods :=
  (looks_resolveMethod r special).imp fun _ => mem_of_resolve?

private theorem reveals_callOf (hp : Discernible s.program) {entry : MethodEntry}
    (hentry : entry.owner ∈ s.program.classes ∧ entry.method ∈ entry.owner.methods) {base : Target.Expr}
    (hbase : IsBalanced base.text.toList) {args : List Target.Expr} (hargs : ∀ t ∈ args, ∃ calls, Reveals calls t) :
    Reveals true (callOf s entry base args) := by
  have hname := hp.isCalled_methodName rfl hentry.1 hentry.2
  unfold callOf
  dsimp only
  split
  · exact reveals_fromNative hp _ (Target.Expr.reveals_invoke hbase hname (isBalanced_nativeArgs hp _ hargs))
  · refine Target.Expr.reveals_invoke hbase hname fun t ht => ?_
    obtain ⟨calls, h⟩ := hargs t ht
    exact h.isBalanced

/-! ### Method references -/

private theorem reveals_path {name : String} (h : IsPlain name.toList) : Reveals false (.path name) :=
  Target.Expr.reveals_of_plain h

private theorem not_mem_defaultValue (type : Ty) : '"' ∉ (Naming.defaultValue type).toList := by
  unfold Naming.defaultValue
  split <;> decide

/-- The call of an adapter passes on what the parameters hold. -/
private theorem reveals_forward (hp : Discernible s.program) {entry : MethodEntry} {base : Target.Expr}
    (hbase : IsBalanced base.text.toList) (hname : Target.IsCalled (s.methodName entry).toList)
    {supplied : List (String × Ty)} (hsupplied : ∀ x ∈ supplied, IsPlain x.1.toList) :
    Reveals true (forward s entry base supplied) := by
  refine Target.Expr.reveals_invoke hbase hname fun t ht => ?_
  rw [← List.map_uncurry_zip_eq_zipWith] at ht
  obtain ⟨⟨x, param⟩, hmem, rfl⟩ := List.mem_map.1 ht
  have hvar : Reveals false (.var x.1) := Target.Expr.reveals_of_plain (hsupplied x (List.of_mem_zip hmem).1)
  exact (reveals_convert hp hvar x.2 param.type).isBalanced

private theorem isPlain_of_mem_positional {types : List Ty} {x : String × Ty} (h : x ∈ positional types) :
    IsPlain x.1.toList := isPlain_of_isWord (isWord_of_mem_positional h)

private theorem reveals_isForward (hp : Discernible s.program) {interfaceMethod : MethodRef} {entry : MethodEntry}
    (hname : Target.IsCalled (s.methodName entry).toList) {call : Target.Expr}
    (hcall : IsForward s interfaceMethod entry call) : Reveals true call := by
  cases hcall with
  | static supplied hsub =>
    exact reveals_forward hp (reveals_path (hp.isPlain_staticHolder _)).isBalanced hname fun x hx =>
      isPlain_of_mem_positional (hsub hx)
  | bound x supplied hx hsub =>
    have hself : Reveals false (.var x.1) := Target.Expr.reveals_of_plain (isPlain_of_mem_positional hx)
    exact reveals_forward hp (reveals_convert hp hself _ _).isBalanced hname fun y hy =>
      isPlain_of_mem_positional (hsub hy)

/-- The adapter around a call, whatever becomes of its result. -/
private theorem reveals_adapterOf (hp : Discernible s.program) (interface : ClassModel) (interfaceMethod : MethodRef)
    (entry : MethodEntry) (owned : Bool) {call : Target.Expr} (hcall : Reveals true call) :
    Reveals true (adapterOf s interface interfaceMethod entry owned call) := by
  obtain ⟨value, result, heq, hvalue, hconstant⟩ := adapterOf_eq s interface interfaceMethod entry owned call
  have hbalanced : IsBalanced value.text.toList := by
    rcases hvalue with rfl | rfl
    · exact hcall.isBalanced
    · exact (reveals_convert hp hcall _ _).isBalanced
  rw [heq]
  refine Target.Expr.reveals_adapter (isAllocated_companion interface.name .adapter) ?_ (hp.isPlain_typeTag _) ?_
    hbalanced ?_
  · intro x hx
    obtain ⟨y, hy, rfl⟩ := List.mem_map.1 hx
    exact ⟨isPlain_of_mem_positional hy, hp.isPlain_typeTag y.2⟩
  · intro holder hholder
    rw [(mem_adapterGuard hholder).1]
    exact hp.isPlain_staticHolder _
  · intro constant h
    rw [hconstant constant h]
    exact not_mem_defaultValue _

private theorem always_capture_reveals (hp : Discernible s.program) (interfaceMethod target : MethodRef) :
    Always (capture s interfaceMethod target) (Reveals true) := by
  rw [capture_eq]
  refine always_skip fun interface => ?_
  split
  · refine (looks_member target false).always.bind fun entry hentry => always_skip fun _ => always_skip fun _ =>
      always_skip fun st => (looks_forwarded _ _ entry).always.bind_pure fun call hcall => ?_
    have hname := hp.isCalled_methodName rfl hentry.1 hentry.2
    exact reveals_adapterOf hp interface interfaceMethod entry _ (reveals_isForward hp hname hcall)
  · exact always_throw

/-! ### Expressions -/

private theorem always_lowerString_reveals (hp : Discernible s.program) (text : Name) :
    Always (lowerString s text) (Reveals false) := by
  have hname : ∀ index, IsPlain (Target.poolIdent index).toList := by
    intro index
    have hdigits := Target.Expr.isPlain_digits index
    simpa [Target.poolIdent, Target.poolStem, toString] using hdigits
  unfold lowerString
  refine always_skip fun _ => always_skip fun _ => ?_
  split
  · exact always_pure (Target.Expr.reveals_of_plain (hname _))
  · exact always_skip fun _ =>
      always_pure (Target.Expr.reveals_member (reveals_path (hp.isPlain_staticHolder _)) (hname _))

private theorem always_lowerLiteral_reveals (hp : Discernible s.program) (value : Literal) :
    Always (lowerLiteral s value) (Reveals false) := by
  cases value with
  | string text => exact always_lowerString_reveals hp text
  | classRef type =>
    exact always_skip fun _ => always_pure (reveals_natives (by decide) (Target.Expr.reveals_quoted _).arg)
  | long value => exact always_pure (composes_reveals.long value)
  | int value => exact always_pure (Target.Expr.reveals_int value)
  | null => exact always_pure (Target.Expr.reveals_of_plain (by decide))
  | bool value => exact always_pure (Target.Expr.reveals_of_plain (by cases value <;> decide))
  | float bits => exact always_pure (Target.Expr.reveals_of_plain (Target.Expr.isPlain_float _ _))
  | double bits => exact always_pure (Target.Expr.reveals_of_plain (Target.Expr.isPlain_float _ _))

theorem always_lowerStaticField_reveals (hp : Discernible s.program) (r : FieldRef) :
    Always (lowerStaticField s r) (Reveals false) :=
  always_skip fun entry => always_skip fun _ =>
    always_pure (Target.Expr.reveals_member (reveals_path (hp.isPlain_staticHolder _)) (isPlain_fieldName s entry))

private theorem always_newArray_reveals (type : Ty) {counts : List Target.Expr}
    (h : ∀ t ∈ counts, IsBalanced t.text.toList) : Always (newArray type counts) (Reveals true) := by
  have hclass := isAllocated_arrayClass type
  have hquoted : IsBalanced (Target.Expr.quoted type.descriptor).text.toList :=
    (Target.Expr.reveals_quoted _).isBalanced
  refine ((looks_newArray type counts).imp fun t ht => ?_).always
  cases ht with
  | plain => exact Target.Expr.reveals_construct hclass h
  | described =>
    exact Target.Expr.reveals_construct hclass (List.forall_mem_append.2 ⟨h, List.forall_mem_singleton.2 hquoted⟩)
  | nested =>
    refine Target.Expr.reveals_invoke (reveals_path (by decide)).isBalanced (by decide) ?_
    exact List.forall_mem_cons.2 ⟨Target.Expr.isBalanced_list h, List.forall_mem_singleton.2 hquoted⟩

mutual

/-- The text of a lowered expression shows a call exactly when the expression has an effect. -/
theorem always_lowerExpr_reveals (hp : Discernible s.program) (hlocals : ∀ name ∈ s.locals, Naming.IsWord name.toList) :
    (e : Expr) → Always (lowerExpr s e) (Reveals e.hasEffect)
  | .missing id => by
    rw [lowerExpr]
    exact always_throw
  | .literal value _ => by
    rw [lowerExpr]
    exact always_lowerLiteral_reveals hp value
  | .readLocal id _ => by
    rw [lowerExpr]
    exact (looks_localName id).always.bind_pure fun name hname =>
      Target.Expr.reveals_of_plain (isPlain_of_isWord (hlocals name (List.mem_of_getElem? hname)))
  | .this _ => by
    rw [lowerExpr]
    exact always_pure (Target.Expr.reveals_of_plain (by decide))
  | .caught _ => by
    rw [lowerExpr]
    exact always_pure (Target.Expr.reveals_of_plain (by decide))
  | .binary op left right type => by
    rw [lowerExpr]
    exact (always_lowerExpr_reveals hp hlocals left).bind fun l hl =>
      (always_lowerExpr_reveals hp hlocals right).bind_pure fun r hr => composes_reveals.binary hl hr op type
  | .unary op operand type => by
    rw [lowerExpr]
    exact (always_lowerExpr_reveals hp hlocals operand).bind_pure fun t ht => composes_reveals.unary ht op type
  | .staticCall method args _ => by
    rw [lowerExpr]
    exact (looks_member method false).always.bind fun entry hentry => always_skip fun _ => always_skip fun _ =>
      (always_lowerExprs_reveals hp hlocals args).bind_pure fun ts hts =>
        reveals_callOf hp hentry (reveals_path (hp.isPlain_staticHolder _)).isBalanced hts
  | .call receiver method args special _ => by
    rw [lowerExpr]
    exact (looks_member method special).always.bind fun entry hentry =>
      (always_lowerExpr_reveals hp hlocals receiver).bind fun base hbase => always_skip fun _ =>
        (always_lowerExprs_reveals hp hlocals args).bind_pure fun ts hts =>
          reveals_callOf hp hentry hbase.isBalanced hts
  | .superCall _ method args _ => by
    rw [lowerExpr]
    exact (looks_member method false).always.bind fun entry hentry => always_skip fun _ =>
      (always_lowerExprs_reveals hp hlocals args).bind_pure fun ts hts =>
        reveals_callOf hp hentry (Target.Expr.reveals_of_plain (by decide)).isBalanced hts
  | .field object r _ => by
    rw [lowerExpr]
    exact (always_lowerExpr_reveals hp hlocals object).bind fun base hbase => always_skip fun entry =>
      always_pure (Target.Expr.reveals_member hbase (isPlain_fieldName s entry))
  | .staticField r _ => by
    rw [lowerExpr]
    exact always_lowerStaticField_reveals hp r
  | .element array index type => by
    rw [lowerExpr]
    refine always_skip fun arrayType => (always_lowerExpr_reveals hp hlocals array).bind fun base hbase =>
      (always_lowerExpr_reveals hp hlocals index).bind_pure fun i hi => ?_
    refine Target.Expr.reveals_get (reveals_asArray hbase arrayType) ?_ hi
    split <;> decide
  | .arrayLength array _ => by
    rw [lowerExpr]
    exact always_skip fun arrayType => (always_lowerExpr_reveals hp hlocals array).bind_pure fun base hbase =>
      Target.Expr.reveals_member (reveals_asArray hbase arrayType) (by decide)
  | .allocate className _ => by
    rw [lowerExpr]
    exact always_skip fun _ => always_skip fun _ =>
      always_pure (Target.Expr.reveals_construct (hp.isAllocated_qualified className) fun _ h => nomatch h)
  | .newArray counts type => by
    rw [lowerExpr]
    refine (always_lowerExprs_reveals hp hlocals counts).bind fun ts hts => always_skip fun _ =>
      always_newArray_reveals type fun t ht => ?_
    obtain ⟨calls, h⟩ := hts t ht
    exact h.isBalanced
  | .instanceOf operand check _ => by
    rw [lowerExpr]
    exact (always_lowerExpr_reveals hp hlocals operand).bind fun t ht => always_skip fun _ =>
      always_pure (Target.Expr.reveals_isOfType ht (hp.isPlain_typeTag check))
  | .cast operand type => by
    rw [lowerExpr]
    exact always_skip fun source => (always_lowerExpr_reveals hp hlocals operand).bind fun t ht => always_skip fun _ =>
      always_pure (reveals_convert hp ht source type)
  | .capture interfaceMethod target _ => by
    rw [lowerExpr]
    exact always_capture_reveals hp interfaceMethod target

theorem always_lowerExprs_reveals (hp : Discernible s.program) (hlocals : ∀ name ∈ s.locals, Naming.IsWord name.toList) :
    (es : List Expr) → Always (lowerExprs s es) fun ts => ∀ t ∈ ts, ∃ calls, Reveals calls t
  | [] => by
    rw [lowerExprs]
    exact always_pure fun _ h => nomatch h
  | e :: es => by
    rw [lowerExprs]
    exact (always_lowerExpr_reveals hp hlocals e).bind fun t ht =>
      (always_lowerExprs_reveals hp hlocals es).bind_pure fun ts hts => List.forall_mem_cons.2 ⟨⟨_, ht⟩, hts⟩

end

end Lowering

end HaxeBackend
