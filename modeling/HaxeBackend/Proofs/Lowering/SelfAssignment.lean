import HaxeBackend.Proofs.Generation.Functions
import HaxeBackend.Proofs.Lowering.Effects
import HaxeBackend.Proofs.Lowering.Repetition

/-!
# Assignments that are left out

An assignment is left out when both sides have the same text (`Drops`).  The text tells whether there is a call, so
nothing is lost with an assignment to a local or to a static field, whose own text has none.  An assignment to a field is
left out whenever the field of the same object is assigned to itself, and then the calls and allocations in the object
are lost (`selfAssignment_loses_iff`).
-/

namespace HaxeBackend

/-- The object and the value of an assignment. -/
def Stmt.assigned : Stmt → List Expr
  | .setLocal _ value | .setStatic _ value => [value]
  | .setField object _ value => [object, value]
  | _ => []

namespace Lowering

variable {s : Scope} {st st' : State} {calls calls' : Bool} {target value : Target.Expr} {t : Target.Stmt}

/-- The statement is lowered, and no assignment is written for it. -/
def Drops (s : Scope) (st : State) (stmt : Stmt) : Prop :=
  ∃ t st', Runs (lowerStmt s stmt) st t st' ∧ t.assignCount = 0

/-- When the assignment is left out, neither its object nor its value has an effect. -/
def LosesNothing (s : Scope) (st : State) (stmt : Stmt) : Prop :=
  Drops s st stmt → ∀ e ∈ stmt.assigned, e.hasEffect = false

private theorem runs_guarded {stmt : Target.Stmt} (h : Runs (guarded s stmt) st t st') :
    t.assignCount = stmt.assignCount := by
  obtain ⟨holders, mid, -, hrun⟩ := runs_bind.1 h
  obtain ⟨rfl, -⟩ := runs_pure.1 hrun
  rw [Target.Stmt.assignCount, Target.Stmt.assignCount_guards, Nat.zero_add]

/-- Both sides of an assignment that is left out read the same. -/
private theorem text_of_dropped (h : Runs (guarded s (assignment target value)) st t st') (hzero : t.assignCount = 0) :
    target.text = value.text := by
  rw [runs_guarded h, assignment] at hzero
  split at hzero
  · assumption
  · cases hzero

/-- Both sides have a call or none has. -/
private theorem calls_of_dropped (htarget : Target.Expr.Reveals calls target) (hvalue : Target.Expr.Reveals calls' value)
    (h : Runs (guarded s (assignment target value)) st t st') (hzero : t.assignCount = 0) : calls = calls' := by
  rw [Target.Expr.Reveals, text_of_dropped h hzero] at htarget
  exact htarget.unique hvalue

section Statements

variable (hp : Discernible s.program) (hlocals : ∀ name ∈ s.locals, Naming.IsWord name.toList)

include hp hlocals

theorem losesNothing_setLocal (id : Nat) (value : Expr) : LosesNothing s st (.setLocal id value) := by
  rintro ⟨t, st', hrun, hzero⟩ e he
  rw [List.mem_singleton.1 he]
  rw [lowerStmt] at hrun
  obtain ⟨name, mid, hname, hrun⟩ := runs_bind.1 hrun
  obtain ⟨v, mid', hv, hrun⟩ := runs_bind.1 hrun
  have hword := hlocals name (List.mem_of_getElem? (runs_localName.1 hname).1)
  have htarget : Target.Expr.Reveals false (.var name) := Target.Expr.reveals_of_plain (isPlain_of_isWord hword)
  exact (calls_of_dropped htarget (always_lowerExpr_reveals hp hlocals value _ _ _ hv) hrun hzero).symm

theorem losesNothing_setStatic (r : FieldRef) (value : Expr) : LosesNothing s st (.setStatic r value) := by
  rintro ⟨t, st', hrun, hzero⟩ e he
  rw [List.mem_singleton.1 he]
  rw [lowerStmt] at hrun
  obtain ⟨target, mid, htarget, hrun⟩ := runs_bind.1 hrun
  obtain ⟨v, mid', hv, hrun⟩ := runs_bind.1 hrun
  exact (calls_of_dropped (always_lowerStaticField_reveals hp r _ _ _ htarget)
    (always_lowerExpr_reveals hp hlocals value _ _ _ hv) hrun hzero).symm

/-- The object and the value of an assignment that is left out have effects or have none. -/
theorem hasEffect_of_drops {object value : Expr} {r : FieldRef} (h : Drops s st (.setField object r value)) :
    object.hasEffect = value.hasEffect := by
  obtain ⟨t, st', hrun, hzero⟩ := h
  rw [lowerStmt] at hrun
  obtain ⟨base, mid, hbase, hrun⟩ := runs_bind.1 hrun
  obtain ⟨entry, mid', hentry, hrun⟩ := runs_bind.1 hrun
  obtain ⟨v, mid'', hv, hrun⟩ := runs_bind.1 hrun
  have htarget := Target.Expr.reveals_member (always_lowerExpr_reveals hp hlocals object _ _ _ hbase)
    (isPlain_fieldName s entry)
  exact calls_of_dropped htarget (always_lowerExpr_reveals hp hlocals value _ _ _ hv) hrun hzero

end Statements

/-- Nothing is written when the field of an object is assigned to itself. -/
theorem drops_self {object value : Expr} {r : FieldRef} (h : Runs (lowerStmt s (.setField object r value)) st t st')
    (type : Ty) : Drops s st (.setField object r (.field object r type)) := by
  rw [lowerStmt] at h
  obtain ⟨base, mid, hbase, h⟩ := runs_bind.1 h
  obtain ⟨entry, _, hentry, -⟩ := runs_bind.1 h
  have hresolve := (runs_resolveField.1 hentry).1
  obtain ⟨last, hagain⟩ := (repeats_lowerExpr object st base mid hbase).2 mid (State.Grows.refl mid)
  have hfield : Runs (lowerExpr s (.field object r type)) mid (.member base (s.fieldName entry)) last := by
    rw [lowerExpr]
    exact runs_bind.2 ⟨base, last, hagain, runs_bind.2 ⟨entry, last, runs_resolveField.2 ⟨hresolve, rfl⟩,
      runs_pure.2 ⟨rfl, rfl⟩⟩⟩
  obtain ⟨t, end', hguarded⟩ : ∃ t end', Runs (guarded s (assignment (.member base (s.fieldName entry))
      (.member base (s.fieldName entry)))) last t end' := ⟨_, _, rfl⟩
  refine ⟨t, end', ?_, ?_⟩
  · rw [lowerStmt]
    exact runs_bind.2 ⟨base, mid, hbase, runs_bind.2 ⟨entry, mid, runs_resolveField.2 ⟨hresolve, rfl⟩,
      runs_bind.2 ⟨_, last, hfield, hguarded⟩⟩⟩
  · rw [runs_guarded hguarded, assignment, if_pos rfl]
    rfl

/-! ### All assignments -/

/-- In the scope of any body, assignments to locals and to static fields are left out only when nothing is lost.  An
assignment to a field of an object, for any object that has the field, loses something with some value exactly when the
object has an effect. -/
theorem selfAssignment_loses_iff {p : Program} (hp : Discernible p) (options : GenOptions) (site : BodySite)
    (body : Body) (st : State) :
    (∀ id value, LosesNothing (scopeOf p options site body) st (.setLocal id value)) ∧
    (∀ r value, LosesNothing (scopeOf p options site body) st (.setStatic r value)) ∧
    ∀ object r, (∃ value t st', Runs (lowerStmt (scopeOf p options site body) (.setField object r value)) st t st') →
      ((∀ value, LosesNothing (scopeOf p options site body) st (.setField object r value)) ↔
        object.hasEffect = false) := by
  have hlocals : ∀ name ∈ (scopeOf p options site body).locals, Naming.IsWord name.toList :=
    fun _ => isWord_of_mem_locals
  refine ⟨losesNothing_setLocal hp hlocals, losesNothing_setStatic hp hlocals, ?_⟩
  rintro object r ⟨value, t, st', hrun⟩
  constructor
  · intro hloses
    exact hloses _ (drops_self hrun r.type) object List.mem_cons_self
  · intro hobject value hdrops e he
    have hvalue := (hasEffect_of_drops hp hlocals hdrops).symm.trans hobject
    rcases List.mem_cons.1 he with rfl | he
    · exact hobject
    · rwa [List.mem_singleton.1 he]

section Node

open Generation (bareClass bareMethod)

/-- A class with a field and a method that gives an object, and an existing target type. -/
private def nodeProgram : Program where
  classes := [
    { bareClass "app.Node" .plain none []
        [{ bareMethod 1 "next" ⟨0x0009⟩ (some {}) with ret := .ref "app.Node" }] with
      fields := [⟨"size", .prim .int, ⟨0x0001⟩, none, []⟩] },
    { bareClass "app.Items" .plain none [] [bareMethod 2 "add" ⟨0x0001⟩ none] with nativeName := some "data.Items" }]
  distinct := by decide

private def sizeRef : FieldRef := ⟨"app.Node", "size", .prim .int⟩

private def nextRef : MethodRef := ⟨"app.Node", "next", ⟨[], .ref "app.Node"⟩⟩

private def nextNode : Expr := .staticCall nextRef [] (.ref "app.Node")

/-- Assigns the size of the next object to itself. -/
private def touchBody : Body where
  exprs := #[⟨.call .static nextRef ⟨0, 0⟩ false, .ref "app.Node"⟩, ⟨.field 0 sizeRef, .prim .int⟩]
  stmts := #[.setField 0 sizeRef 1]
  stmtLists := #[0]
  root := ⟨0, 1⟩

private def nodeSite : BodySite := ⟨[], false, some "app.Node", .own⟩

private def nodeScope : Scope := scopeOf nodeProgram {} nodeSite touchBody

private def nodeState : State := startState nodeSite {}

/-- Where the object is this one, assignments to its field lose nothing; where it is given by a call, some do. -/
theorem selfAssignment_loses_iff_node :
    Discernible nodeProgram ∧
      (∀ value, LosesNothing nodeScope nodeState (.setField (.this (.ref "app.Node")) sizeRef value)) ∧
      ¬∀ value, LosesNothing nodeScope nodeState (.setField nextNode sizeRef value) := by
  have hp : Discernible nodeProgram := {
    name := by decide
    method := by decide
    toNative := by decide
    fromNative := by decide }
  obtain ⟨-, -, hfield⟩ := selfAssignment_loses_iff hp {} nodeSite touchBody nodeState
  refine ⟨hp, (hfield _ _ ⟨.this (.prim .int), _, _, by with_unfolding_all rfl⟩).2 rfl, fun hall => ?_⟩
  have hnone := (hfield nextNode sizeRef ⟨.this (.prim .int), _, _, by with_unfolding_all rfl⟩).1 hall
  exact absurd hnone (by decide)

/-- Nothing is written for a body that calls a method twice. -/
theorem selfAssignment_loses_calls :
    touchBody.tree = .seq (.setField nextNode sizeRef (.field nextNode sizeRef (.prim .int))) .skip ∧
      (lowerBody nodeProgram {} nodeSite touchBody {}).1 = .ok ⟨[], false, .seq (.seq .skip .skip) .skip⟩ ∧
      ¬LosesNothing nodeScope nodeState (.setField nextNode sizeRef (.field nextNode sizeRef (.prim .int))) := by
  refine ⟨by with_unfolding_all rfl, by with_unfolding_all rfl, fun hloses => ?_⟩
  have hnone := hloses ⟨_, _, by with_unfolding_all rfl, rfl⟩ nextNode List.mem_cons_self
  exact absurd hnone (by decide)

end Node

end Lowering

end HaxeBackend
