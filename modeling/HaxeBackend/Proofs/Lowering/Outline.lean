import HaxeBackend.Proofs.Lowering.Leaves
import HaxeBackend.Proofs.Target.Execution

/-!
# Outlines of bodies

What lowering keeps in its place: the line markers, the borders of `try` and `catch`, the uses of caught values, and
the throws.  A lowered body has the landmarks of its source, in the same order, and a rethrow throws the caught value
(`landmarks_of_lowerBody`); only an assignment that is dropped takes its uses along.  Guards come in between, and they
are no landmarks.
-/

namespace HaxeBackend

namespace Expr

mutual

/-- The uses of the caught value, from left to right; nothing evaluates the receiver of a super call. -/
def caughts : Expr → List Expr
  | .caught type => [.caught type]
  | .binary _ left right _ | .element left right _ => left.caughts ++ right.caughts
  | .unary _ operand _ | .field operand _ _ | .arrayLength operand _ | .instanceOf operand _ _ | .cast operand _ =>
    operand.caughts
  | .call receiver _ args _ _ => receiver.caughts ++ caughtsList args
  | .staticCall _ args _ | .superCall _ _ args _ | .newArray args _ => caughtsList args
  | .missing _ | .literal .. | .readLocal .. | .this _ | .staticField .. | .allocate .. | .capture .. => []

def caughtsList : List Expr → List Expr
  | [] => []
  | e :: rest => e.caughts ++ caughtsList rest

end

/-- The leaves that use the caught value. -/
def caughtLeaf : Expr → List Expr
  | .caught type => [.caught type]
  | _ => []

mutual

theorem caughts_eq : (e : Expr) → e.caughts = e.gather caughtLeaf
  | .binary _ left right _ | .element left right _ => by
    rw [caughts, gather, left.caughts_eq, right.caughts_eq]
  | .unary _ operand _ | .field operand _ _ | .arrayLength operand _ | .instanceOf operand _ _ | .cast operand _ => by
    rw [caughts, gather, operand.caughts_eq]
  | .call receiver _ args _ _ => by rw [caughts, gather, receiver.caughts_eq, caughtsList_eq args]
  | .staticCall _ args _ | .superCall _ _ args _ | .newArray args _ => by rw [caughts, gather, caughtsList_eq args]
  | .readLocal .. | .caught _ | .missing _ | .literal .. | .this _ | .staticField .. | .allocate .. | .capture .. =>
    rfl

theorem caughtsList_eq : (es : List Expr) → caughtsList es = gatherList caughtLeaf es
  | [] => rfl
  | e :: rest => by rw [caughtsList, gatherList, e.caughts_eq, caughtsList_eq rest]

end

end Expr

/-- A place of a body that lowering keeps. -/
inductive Landmark (ε : Type) where
  | line (number : Nat)
  | tries
  /-- The body of a `try` ends, and its clause starts. -/
  | enters
  | leaves
  /-- The caught value is used, in an assignment or elsewhere. -/
  | uses (isAssigned : Bool)
  | throws (value : ε)

namespace Landmark

def line? {ε : Type} : Landmark ε → Option Nat
  | line number => some number
  | tries | enters | leaves | uses _ | throws _ => none

/-- What a landmark becomes; a rethrow has no value of its own. -/
def Becomes : Landmark (Option Expr) → Landmark Target.Expr → Prop
  | line number, line number' => number = number'
  | tries, tries | enters, enters | leaves, leaves | uses _, uses _ => True
  | throws none, throws value => value = .caught
  | throws (some _), throws _ => True
  | _, _ => False

/-- The landmarks are kept, but for uses in assignments. -/
inductive Kept : List (Landmark (Option Expr)) → List (Landmark Target.Expr) → Prop
  | nil : Kept [] []
  | cons {a b l l'} (h : Becomes a b) (rest : Kept l l') : Kept (a :: l) (b :: l')
  | drop {l l'} (rest : Kept l l') : Kept (uses true :: l) l'

namespace Kept

variable {l m : List (Landmark (Option Expr))} {l' m' : List (Landmark Target.Expr)}

theorem append (h : Kept l l') (hm : Kept m m') : Kept (l ++ m) (l' ++ m') := by
  induction h with
  | nil => exact hm
  | cons hab _ ih => exact .cons hab ih
  | drop _ ih => exact .drop ih

/-- As many uses as there were. -/
theorem of_length {α β : Type} {xs : List α} {ys : List β} (h : ys.length = xs.length) (isAssigned isAssigned' : Bool) :
    Kept (xs.map fun _ => uses isAssigned) (ys.map fun _ => uses isAssigned') := by
  induction xs generalizing ys with
  | nil =>
    obtain rfl := List.length_eq_zero_iff.1 h
    exact .nil
  | cons x xs ih =>
    cases ys with
    | nil => cases h
    | cons y ys => exact .cons trivial (ih (Nat.succ.inj h))

theorem of_dropped {α : Type} (xs : List α) : Kept (xs.map fun _ => uses true) [] := by
  induction xs with
  | nil => exact .nil
  | cons x xs ih => exact .drop ih

theorem lines_eq (h : Kept l l') : l.filterMap line? = l'.filterMap line? := by
  induction h with
  | nil => rfl
  | @cons a b _ _ hab _ ih =>
    have hline : a.line? = b.line? := by
      cases a <;> cases b <;> simp_all [Becomes, line?]
    rw [List.filterMap_cons, List.filterMap_cons, hline, ih]
  | drop _ ih => exact ih

end Kept

end Landmark

/-- The landmarks of a statement, in order. -/
def Stmt.landmarks : Stmt → List (Landmark (Option Expr))
  | .line number => [.line number]
  | .eval x | .ret (some x) | .gotoIf x _ | .jumpTable x _ _ => x.caughts.map fun _ => .uses false
  | .setLocal _ value | .setStatic _ value => value.caughts.map fun _ => .uses true
  | .setField object _ value => (object.caughts ++ value.caughts).map fun _ => .uses true
  | .setElement array index value => (array.caughts ++ (index.caughts ++ value.caughts)).map fun _ => .uses false
  | .construct _ _ _ args => (Expr.caughtsList args).map fun _ => .uses false
  | .throw value => (value.caughts.map fun _ => .uses false) ++ [.throws (some value)]
  | .rethrow => [.uses false, .throws none]
  | .seq first rest => first.landmarks ++ rest.landmarks
  | .tryCatch body handler => .tries :: body.landmarks ++ .enters :: handler.landmarks ++ [.leaves]
  | .ite condition thenBranch elseBranch =>
    (condition.caughts.map fun _ => .uses false) ++ (thenBranch.landmarks ++ elseBranch.landmarks)
  | .when condition body | .loop condition body | .switch condition body =>
    (condition.caughts.map fun _ => .uses false) ++ body.landmarks
  | .arm _ body | .otherwise body => body.landmarks
  | .missing _ | .skip | .label _ | .goto _ | .ret none | .exitLoop | .nextLoop => []

def Target.Stmt.landmarks : Target.Stmt → List (Landmark Target.Expr)
  | .mark source => [.line source]
  | .eval x | .ret (some x) | .gotoIf x _ | .jumpTable x _ _ => x.caughts.map fun _ => .uses false
  | .assign target value => (target.caughts ++ value.caughts).map fun _ => .uses true
  | .throw value => (value.caughts.map fun _ => .uses false) ++ [.throws value]
  | .seq first rest => first.landmarks ++ rest.landmarks
  | .tryCatch body handler => .tries :: body.landmarks ++ .enters :: handler.landmarks ++ [.leaves]
  | .ite condition thenBranch elseBranch =>
    (condition.caughts.map fun _ => .uses false) ++ (thenBranch.landmarks ++ elseBranch.landmarks)
  | .when condition body | .loop condition body | .switch condition body =>
    (condition.caughts.map fun _ => .uses false) ++ body.landmarks
  | .arm _ body | .otherwise body => body.landmarks
  | .skip | .guard _ | .label _ | .goto _ | .declare .. | .ret none | .exitLoop | .nextLoop => []

namespace Lowering

open Landmark (Kept)

variable {α β : Type} {s : Scope}

/-! ### Expressions -/

private theorem passedOn_caughts : PassedOn Target.Expr.caughts where
  int := fun _ => rfl
  num := fun _ _ => Target.Expr.caughtsList_eq _
  natives := fun _ _ => Target.Expr.caughtsList_eq _
  invoke := fun base _ args => congrArg (base.caughts ++ ·) (Target.Expr.caughtsList_eq args)
  binary := fun _ _ _ => rfl
  negate := fun _ => rfl
  not := fun _ => rfl
  complement := fun _ => rfl
  castTo := fun _ _ => rfl
  template := fun _ _ => rfl

private theorem keepsLeaves_caughts (s : Scope) :
    KeepsLeaves s (fun _ _ => True) Expr.caughtLeaf Target.Expr.caughts where
  toPassedOn := passedOn_caughts
  readLocal := fun _ _ _ _ => .nil
  caught := fun _ => .cons trivial .nil
  constant := by
    intro t ht
    cases t <;> first
      | rfl
      | exact ht.elim
  capture := by
    intro interfaceMethod target st t st' hrun
    obtain ⟨className, params, ret, guard, call, result, rfl, -, hcall⟩ :=
      always_capture passedOn_caughts (fun _ => rfl) interfaceMethod target (fun _ _ => rfl) st t st' hrun
    exact hcall
  member := fun _ _ => rfl
  isOfType := fun _ _ => rfl
  construct := fun _ _ => Target.Expr.caughtsList_eq _
  list := fun _ => Target.Expr.caughtsList_eq _

/-- The expression has as many uses of the caught value as the source. -/
private abbrev Uses (e : Expr) (t : Target.Expr) : Prop := t.caughts.length = e.caughts.length

private abbrev UsesAll (es : List Expr) (ts : List Target.Expr) : Prop :=
  (ts.flatMap Target.Expr.caughts).length = (Expr.caughtsList es).length ∧ ts.length = es.length

private theorem always_lowerStaticField (r : FieldRef) : Always (lowerStaticField s r) fun t => t.caughts = [] :=
  (keepsLeaves_caughts s).always_lowerStaticField r

/-- A lowered expression uses the caught value as often as its source. -/
private theorem always_lowerExpr (e : Expr) : Always (lowerExpr s e) (Uses e) := by
  intro st t st' hrun
  rw [Uses, Expr.caughts_eq]
  exact ((keepsLeaves_caughts s).always_lowerExpr e st t st' hrun).length_eq.symm

private theorem always_lowerExprs (es : List Expr) : Always (lowerExprs s es) (UsesAll es) := by
  intro st ts st' hrun
  obtain ⟨hleaves, hlength⟩ := (keepsLeaves_caughts s).always_lowerExprs es st ts st' hrun
  rw [UsesAll, Expr.caughtsList_eq]
  exact ⟨hleaves.length_eq.symm, hlength⟩

/-! ### Statements -/

/-- The statement has these landmarks. -/
private abbrev HasOutline (outline : List (Landmark (Option Expr))) (t : Target.Stmt) : Prop := Kept outline t.landmarks

private theorem landmarks_guards (holders : List String) :
    (Target.Stmt.ofList (holders.map .guard)).landmarks = [] := by
  induction holders with
  | nil => rfl
  | cons holder holders ih => exact ih

variable {outline : List (Landmark (Option Expr))}

/-- A statement behind the guards that it asked for. -/
private theorem hasOutline_behind {holders : List String} {t : Target.Stmt} (h : HasOutline outline t) :
    HasOutline outline (.seq (.ofList (holders.map .guard)) t) := by
  unfold HasOutline Target.Stmt.landmarks
  rw [landmarks_guards]
  exact h

private theorem always_guarded {t : Target.Stmt} (h : HasOutline outline t) :
    Always (guarded s t) (HasOutline outline) :=
  always_skip fun _ => always_pure (hasOutline_behind h)

private theorem hasOutline_assignment {target value : Target.Expr} {xs : List Expr}
    (h : (target.caughts ++ value.caughts).length = xs.length) :
    HasOutline (xs.map fun _ => .uses true) (assignment target value) := by
  unfold assignment
  split
  · exact .of_dropped xs
  · exact .of_length h true true

private theorem always_lowerConstruct (id : Nat) (className : Name) (constructor : MethodRef) (args : List Expr) :
    Always (lowerConstruct s id className constructor args)
      (HasOutline (Stmt.construct id className constructor args).landmarks) := by
  unfold lowerConstruct
  refine always_skip fun _ => always_skip fun _ => always_skip fun entry =>
    (looks_checkArity _ _).always.bind fun _ harity => (always_lowerExprs args).bind fun ts hts => ?_
  dsimp only
  split
  · refine always_skip fun _ => always_guarded (.of_length ?_ _ _)
    rw [← hts.1, ← passedOn_caughts.read_nativeArgs s.program (hts.2.trans harity), ← Target.Expr.caughtsList_eq]
    rfl
  · refine always_skip fun _ => always_guarded (.of_length ?_ _ _)
    rw [← hts.1, passedOn_caughts.invoke]
    rfl

private theorem always_lowerStmt (s : Scope) (stmt : Stmt) : Always (lowerStmt s stmt) (HasOutline stmt.landmarks) := by
  -- by what each statement shows: lines, uses of the caught value and assignments, in order
  induction stmt with
  | missing id => rw [lowerStmt]; exact always_throw
  | skip => rw [lowerStmt]; exact always_pure .nil
  | seq first rest ihfirst ihrest =>
    rw [lowerStmt]
    exact ihfirst.bind fun a ha => ihrest.bind_pure fun b hb => ha.append hb
  | line number => rw [lowerStmt]; exact always_pure (.cons rfl .nil)
  | label id => rw [lowerStmt]; exact always_skip fun _ => always_pure .nil
  | goto label => rw [lowerStmt]; exact always_skip fun _ => always_pure .nil
  | gotoIf condition label =>
    rw [lowerStmt]
    exact always_skip fun _ => (always_lowerExpr condition).bind fun c hc => always_guarded (.of_length hc _ _)
  | jumpTable subject cases default =>
    rw [lowerStmt]
    exact always_skip fun _ => always_skip fun _ => (always_lowerExpr subject).bind fun x hx =>
      always_guarded (.of_length hx _ _)
  | setLocal id value =>
    rw [lowerStmt]
    exact always_skip fun _ => (always_lowerExpr value).bind fun v hv => always_guarded (hasOutline_assignment hv)
  | setField object field value =>
    rw [lowerStmt]
    refine (always_lowerExpr object).bind fun base hbase => always_skip fun _ => (always_lowerExpr value).bind
      fun v hv => always_guarded (hasOutline_assignment ?_)
    rw [Target.Expr.caughts, List.length_append, List.length_append, hbase, hv]
  | setStatic field value =>
    rw [lowerStmt]
    refine (always_lowerStaticField field).bind fun target htarget => (always_lowerExpr value).bind
      fun v hv => always_guarded (hasOutline_assignment ?_)
    rw [htarget, List.nil_append, hv]
  | setElement array index value =>
    rw [lowerStmt]
    refine always_skip fun _ => always_skip fun _ => (always_lowerExpr array).bind fun base hbase =>
      (always_lowerExpr index).bind fun i hi => (always_lowerExpr value).bind fun v hv =>
      always_guarded (.of_length ?_ _ _)
    rw [passedOn_caughts.invoke, passedOn_caughts.read_asArray, List.flatMap_cons, List.flatMap_singleton]
    rw [List.length_append, List.length_append, hbase, hi, hv, List.length_append, List.length_append]
  | construct id className constructor args =>
    rw [lowerStmt]
    exact always_lowerConstruct id className constructor args
  | eval expr =>
    rw [lowerStmt]
    exact (always_lowerExpr expr).bind fun x hx => always_guarded (.of_length hx _ _)
  | ret value =>
    cases value with
    | none =>
      rw [lowerStmt]
      refine always_guarded ?_
      split
      · exact .nil
      · exact .nil
    | some value =>
      rw [lowerStmt]
      exact (always_lowerExpr value).bind fun v hv => always_guarded (.of_length hv _ _)
  | throw value =>
    rw [lowerStmt]
    exact (always_lowerExpr value).bind fun v hv =>
      always_guarded ((Kept.of_length hv _ _).append (.cons trivial .nil))
  | tryCatch body handler ihbody ihhandler =>
    rw [lowerStmt]
    refine always_skip fun _ => ihbody.bind fun b hb => ihhandler.bind_pure fun h hh => hasOutline_behind ?_
    have hinner : Kept (.tries :: body.landmarks ++ .enters :: handler.landmarks)
        (.tries :: b.landmarks ++ .enters :: h.landmarks) := .append (.cons trivial hb) (.cons trivial hh)
    exact hinner.append (.cons trivial .nil)
  | rethrow => rw [lowerStmt]; exact always_guarded (.cons trivial (.cons rfl .nil))
  | «when» condition body ih | loop condition body ih | switch condition body ih =>
    rw [lowerStmt]
    exact (always_lowerExpr condition).bind fun c hc => always_skip fun _ => ih.bind_pure fun b hb =>
      hasOutline_behind ((Kept.of_length hc _ _).append hb)
  | ite condition thenBranch elseBranch ihthen ihelse =>
    rw [lowerStmt]
    exact (always_lowerExpr condition).bind fun c hc => always_skip fun _ => ihthen.bind fun a ha =>
      ihelse.bind_pure fun b hb => hasOutline_behind ((Kept.of_length hc _ _).append (ha.append hb))
  | arm values body ih =>
    rw [lowerStmt]
    split
    · exact always_skip fun _ => ih.bind_pure fun b hb => hb
    · exact ih.bind_pure fun b hb => hb
  | otherwise body ih => rw [lowerStmt]; exact ih.bind_pure fun b hb => hb
  | exitLoop => rw [lowerStmt]; exact always_guarded .nil
  | nextLoop => rw [lowerStmt]; exact always_guarded .nil

/-- A lowered body has the landmarks of its source, in the same order. -/
theorem landmarks_of_lowerBody {p : Program} {options : GenOptions} {site : BodySite} {body : Body} {unit : UnitState}
    {b : Target.Body} (h : (lowerBody p options site body unit).1 = .ok b) :
    Kept body.tree.landmarks b.stmts.landmarks := by
  obtain ⟨last, hrun⟩ := runs_of_lowerBody h
  exact always_lowerStmt _ _ _ _ _ hrun

end Lowering

end HaxeBackend
