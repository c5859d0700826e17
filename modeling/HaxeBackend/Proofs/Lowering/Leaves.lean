import HaxeBackend.Proofs.Lowering.Adapters
import Mathlib.Data.List.Forall2

/-!
# Leaves of expressions

What is gathered from the locals and the caught values of an expression, from left to right (`Expr.gather`).  Lowering
keeps the leaves and their order, so what is read off a lowered expression corresponds to what is gathered from its
source, one by one, as soon as it does for the leaves (`KeepsLeaves.always_lowerExpr`).
-/

namespace HaxeBackend

namespace Expr

variable {α : Type}

mutual

/-- What the leaves of the expression have; nothing evaluates the receiver of a super call. -/
def gather (leaf : Expr → List α) : Expr → List α
  | .binary _ left right _ | .element left right _ => left.gather leaf ++ right.gather leaf
  | .unary _ operand _ | .field operand _ _ | .arrayLength operand _ | .instanceOf operand _ _ | .cast operand _ =>
    operand.gather leaf
  | .call receiver _ args _ _ => receiver.gather leaf ++ gatherList leaf args
  | .staticCall _ args _ | .superCall _ _ args _ | .newArray args _ => gatherList leaf args
  | .readLocal id type => leaf (.readLocal id type)
  | .caught type => leaf (.caught type)
  | .missing _ | .literal .. | .this _ | .staticField .. | .allocate .. | .capture .. => []

def gatherList (leaf : Expr → List α) : List Expr → List α
  | [] => []
  | e :: rest => e.gather leaf ++ gatherList leaf rest

end

end Expr

namespace Lowering

variable {α β : Type} {s : Scope} {read : Target.Expr → List β}

/-! ### Method references -/

/-- What becomes of a method reference: an adapter whose call has nothing but what the parameters of the adapter
have. -/
theorem always_capture (h : PassedOn read) (hpath : ∀ name, read (.path name) = []) (interfaceMethod target : MethodRef)
    (hparams : ∀ x ∈ positional interfaceMethod.type.args, read (.var x.1) = []) :
    Always (capture s interfaceMethod target) fun t => ∃ className params ret guard call result,
      t = .adapter className params ret guard call result ∧
        params.map Prod.fst = (positional interfaceMethod.type.args).map Prod.fst ∧ read call = [] := by
  rw [capture_eq]
  refine always_skip fun interface => ?_
  split
  · refine always_skip fun entry => always_skip fun _ => always_skip fun _ => always_skip fun st =>
      (looks_forwarded _ _ entry).always.bind_pure fun call hcall => ?_
    obtain ⟨value, result, heq, hvalue, -⟩ := adapterOf_eq s interface interfaceMethod entry
      (st.guards.owns entry.owner.name) call
    refine ⟨_, _, _, _, value, result, heq, ?_, ?_⟩
    · rw [List.map_map]
      rfl
    · have hread : read call = [] := (h.read_isForward hcall hparams).elim id fun hholder => hholder.trans (hpath _)
      rcases hvalue with rfl | rfl
      · exact hread
      · exact (h.read_convert _ _ _ _).trans hread
  · exact always_throw

/-! ### Leaves -/

/-- A target expression without parts that is neither a variable nor the caught value. -/
def IsConstant : Target.Expr → Prop
  | .null | .bool _ | .int _ | .single _ | .double _ | .quoted _ | .this | .super | .path _ | .pooled _ => True
  | _ => False

/-- What is read off a target expression is what its parts have, and for leaves it corresponds to what the leaf of the
source has. -/
structure KeepsLeaves (s : Scope) (R : α → β → Prop) (leaf : Expr → List α) (read : Target.Expr → List β) : Prop
    extends PassedOn read where
  readLocal : ∀ id type name, s.locals[id]? = some name →
    List.Forall₂ R (leaf (.readLocal id type)) (read (.var name))
  caught : ∀ type, List.Forall₂ R (leaf (.caught type)) (read .caught)
  constant : ∀ t, IsConstant t → read t = []
  capture : ∀ interfaceMethod target, Always (capture s interfaceMethod target) fun t => read t = []
  member : ∀ object name, read (.member object name) = read object
  isOfType : ∀ operand tag, read (.isOfType operand tag) = read operand
  construct : ∀ className args, read (.construct className args) = args.flatMap read
  list : ∀ items, read (.list items) = items.flatMap read

namespace KeepsLeaves

variable {R : α → β → Prop} {leaf : Expr → List α}

private theorem always_lowerString (h : KeepsLeaves s R leaf read) (text : Name) :
    Always (lowerString s text) fun t => read t = [] := by
  unfold lowerString
  refine always_skip fun _ => always_skip fun _ => ?_
  split
  · exact always_pure (h.constant _ trivial)
  · exact always_skip fun _ => always_pure ((h.member _ _).trans (h.constant _ trivial))

private theorem always_lowerLiteral (h : KeepsLeaves s R leaf read) (value : Literal) :
    Always (lowerLiteral s value) fun t => read t = [] := by
  cases value with
  | string text => exact h.always_lowerString text
  | classRef type =>
    refine always_skip fun _ => always_pure ?_
    rw [classLiteral, h.natives, List.flatMap_singleton]
    exact h.constant _ trivial
  | long value => exact always_pure (h.read_long value)
  | null | bool _ | int _ | float _ | double _ => exact always_pure (h.constant _ trivial)

private theorem always_newArray (h : KeepsLeaves s R leaf read) (type : Ty) (counts : List Target.Expr) :
    Always (newArray type counts) fun t => read t = counts.flatMap read := by
  have hquoted : read (.quoted type.descriptor) = [] := h.constant _ trivial
  refine ((looks_newArray type counts).imp fun t ht => ?_).always
  cases ht with
  | plain => exact h.construct _ _
  | described => rw [h.construct, List.flatMap_append, List.flatMap_singleton, hquoted, List.append_nil]
  | nested =>
    rw [h.invoke, h.constant (.path _) trivial, List.nil_append, List.flatMap_cons, List.flatMap_singleton, hquoted,
      List.append_nil, h.list]

theorem always_lowerStaticField (h : KeepsLeaves s R leaf read) (r : FieldRef) :
    Always (lowerStaticField s r) fun t => read t = [] :=
  always_skip fun _ => always_skip fun _ => always_pure ((h.member _ _).trans (h.constant _ trivial))

/-- The leaves of the source are kept in order. -/
private abbrev Corresponds (R : α → β → Prop) (leaf : Expr → List α) (read : Target.Expr → List β) (e : Expr)
    (t : Target.Expr) : Prop :=
  List.Forall₂ R (e.gather leaf) (read t)

/-- The leaves of all sources are kept, and there is one expression for each. -/
private abbrev CorrespondsAll (R : α → β → Prop) (leaf : Expr → List α) (read : Target.Expr → List β) (es : List Expr)
    (ts : List Target.Expr) : Prop :=
  List.Forall₂ R (Expr.gatherList leaf es) (ts.flatMap read) ∧ ts.length = es.length

mutual

/-- Lowering an expression keeps its leaves. -/
theorem always_lowerExpr (h : KeepsLeaves s R leaf read) :
    (e : Expr) → Always (lowerExpr s e) (Corresponds R leaf read e)
  | .missing id => by
    rw [lowerExpr]
    exact always_throw
  | .literal value _ => by
    rw [lowerExpr]
    intro st t st' hrun
    rw [Corresponds, h.always_lowerLiteral value st t st' hrun]
    exact .nil
  | .readLocal id type => by
    rw [lowerExpr]
    exact (looks_localName id).always.bind_pure fun name hname => h.readLocal id type name hname
  | .this _ => by
    rw [lowerExpr]
    refine always_pure ?_
    rw [Corresponds, h.constant .this trivial]
    exact .nil
  | .caught type => by
    rw [lowerExpr]
    exact always_pure (h.caught type)
  | .binary op left right type => by
    rw [lowerExpr]
    refine (h.always_lowerExpr left).bind fun l hl => (h.always_lowerExpr right).bind_pure fun r hr => ?_
    rw [Corresponds, h.read_binary]
    exact List.rel_append hl hr
  | .unary op operand type => by
    rw [lowerExpr]
    refine (h.always_lowerExpr operand).bind_pure fun t ht => ?_
    rw [Corresponds, h.read_unary]
    exact ht
  | .staticCall method args _ => by
    rw [lowerExpr]
    refine always_skip fun entry => always_skip fun _ => (looks_checkArity _ _).always.bind fun _ harity =>
      (h.always_lowerExprs args).bind_pure fun ts hts => ?_
    rw [Corresponds, h.read_callOf _ (hts.2.trans harity), h.constant (.path _) trivial]
    exact hts.1
  | .call receiver method args special _ => by
    rw [lowerExpr]
    refine always_skip fun entry => (h.always_lowerExpr receiver).bind fun base hbase =>
      (looks_checkArity _ _).always.bind fun _ harity => (h.always_lowerExprs args).bind_pure fun ts hts => ?_
    rw [Corresponds, h.read_callOf _ (hts.2.trans harity)]
    exact List.rel_append hbase hts.1
  | .superCall _ method args _ => by
    rw [lowerExpr]
    refine always_skip fun entry => (looks_checkArity _ _).always.bind fun _ harity =>
      (h.always_lowerExprs args).bind_pure fun ts hts => ?_
    rw [Corresponds, h.read_callOf _ (hts.2.trans harity), h.constant .super trivial]
    exact hts.1
  | .field object r _ => by
    rw [lowerExpr]
    refine (h.always_lowerExpr object).bind fun base hbase => always_skip fun _ => always_pure ?_
    rw [Corresponds, h.member]
    exact hbase
  | .staticField r _ => by
    rw [lowerExpr]
    intro st t st' hrun
    rw [Corresponds, h.always_lowerStaticField r st t st' hrun]
    exact .nil
  | .element array index _ => by
    rw [lowerExpr]
    refine always_skip fun _ => (h.always_lowerExpr array).bind fun base hbase =>
      (h.always_lowerExpr index).bind_pure fun i hi => ?_
    rw [Corresponds, h.invoke, h.read_asArray, List.flatMap_singleton]
    exact List.rel_append hbase hi
  | .arrayLength array _ => by
    rw [lowerExpr]
    refine always_skip fun _ => (h.always_lowerExpr array).bind_pure fun base hbase => ?_
    rw [Corresponds, h.member, h.read_asArray]
    exact hbase
  | .allocate className _ => by
    rw [lowerExpr]
    refine always_skip fun _ => always_skip fun _ => always_pure ?_
    rw [Corresponds, h.construct]
    exact .nil
  | .newArray counts type => by
    rw [lowerExpr]
    refine (h.always_lowerExprs counts).bind fun ts hts => always_skip fun _ st t st' hrun => ?_
    rw [Corresponds, h.always_newArray type ts st t st' hrun]
    exact hts.1
  | .instanceOf operand check _ => by
    rw [lowerExpr]
    refine (h.always_lowerExpr operand).bind fun t ht => always_skip fun _ => always_pure ?_
    rw [Corresponds, h.isOfType]
    exact ht
  | .cast operand type => by
    rw [lowerExpr]
    refine always_skip fun _ => (h.always_lowerExpr operand).bind fun t ht => always_skip fun _ => always_pure ?_
    rw [Corresponds, h.read_convert]
    exact ht
  | .capture interfaceMethod target _ => by
    rw [lowerExpr]
    intro st t st' hrun
    rw [Corresponds, h.capture interfaceMethod target st t st' hrun]
    exact .nil

theorem always_lowerExprs (h : KeepsLeaves s R leaf read) :
    (es : List Expr) → Always (lowerExprs s es) (CorrespondsAll R leaf read es)
  | [] => by
    rw [lowerExprs]
    exact always_pure ⟨.nil, rfl⟩
  | e :: es => by
    rw [lowerExprs]
    refine (h.always_lowerExpr e).bind fun t ht => (h.always_lowerExprs es).bind_pure fun ts hts => ⟨?_, ?_⟩
    · rw [List.flatMap_cons]
      exact List.rel_append ht hts.1
    · rw [List.length_cons, List.length_cons, hts.2]

end

end KeepsLeaves

end Lowering

end HaxeBackend
