import HaxeBackend.Proofs.Naming.Variables
import HaxeBackend.Proofs.Target.Execution
import HaxeBackend.Proofs.Target.Uses

/-!
# What the text of a function starts its references with

A reference to a support class or to the statics of a class starts with an identifier that a variable of the same name
would hide.  Here are these identifiers (`Function.heads`), and the variables of a function (`Function.vars`):
its parameters, the variables it declares, and those that clauses and functions inside it bind.  Text that is handed
through is not looked into.
-/

namespace HaxeBackend.Target

open Naming (headWord)

/-- The classes of the support library and of the target that the text of expressions and bodies calls. -/
def supportClasses : List String := [numClass, nativesClass, reflectClass, "Std", "Math", objectArray]

/-- Numbers without digits are constants of a class. -/
def numberCalls : Binary.Number → List String
  | .nan | .infinite _ => ["Math"]
  | .finite .. => []

/-- The zero of a 64-bit number is made by a helper, other zeros are plain. -/
def zeroCalls (text : String) : List String := if headWord text = numClass then [numClass] else []

def AdapterResult.supportCalls : AdapterResult → List String
  | constant text => zeroCalls text
  | discard | value => []

/-! ### Expressions -/

namespace Expr

mutual

/-- The support classes that are called. -/
def supportCalls : Expr → List String
  | num _ args => numClass :: supportCallsList args
  | natives _ args => nativesClass :: supportCallsList args
  | isOfType operand _ => "Std" :: operand.supportCalls
  | single bits => numberCalls (Binary.single.decode bits.toNat)
  | double bits => numberCalls (Binary.double.decode bits.toNat)
  | construct _ args | list args => supportCallsList args
  | binary _ left right => left.supportCalls ++ right.supportCalls
  | negate operand | not operand | complement operand | member operand _ | castTo operand _ | template _ operand =>
    operand.supportCalls
  | invoke object _ args => object.supportCalls ++ supportCallsList args
  | adapter _ _ _ _ call result => call.supportCalls ++ result.supportCalls
  | null | bool _ | int _ | quoted _ | var _ | this | super | caught | path _ | pooled _ => []

def supportCallsList : List Expr → List String
  | [] => []
  | e :: rest => e.supportCalls ++ supportCallsList rest

end

mutual

/-- The parameters of the functions inside. -/
def innerParams : Expr → List String
  | adapter _ params _ _ call _ => params.map Prod.fst ++ call.innerParams
  | num _ args | natives _ args | construct _ args | list args => innerParamsList args
  | binary _ left right => left.innerParams ++ right.innerParams
  | negate operand | not operand | complement operand | member operand _ | isOfType operand _ | castTo operand _
  | template _ operand => operand.innerParams
  | invoke object _ args => object.innerParams ++ innerParamsList args
  | null | bool _ | int _ | single _ | double _ | quoted _ | var _ | this | super | caught | path _ | pooled _ => []

def innerParamsList : List Expr → List String
  | [] => []
  | e :: rest => e.innerParams ++ innerParamsList rest

end

private theorem numberCalls_subset (n : Binary.Number) : ∀ name ∈ numberCalls n, name ∈ supportClasses := by
  cases n with
  | nan | infinite => exact List.forall_mem_singleton.2 (by decide)
  | finite => exact fun _ h => absurd h List.not_mem_nil

private theorem zeroCalls_subset (text : String) : ∀ name ∈ zeroCalls text, name ∈ supportClasses := by
  unfold zeroCalls
  split <;> decide

mutual

private theorem supportCalls_subset : (e : Expr) → ∀ name ∈ e.supportCalls, name ∈ supportClasses
  | num _ args | natives _ args => by
    rw [supportCalls]
    exact List.forall_mem_cons.2 ⟨by decide, supportCallsList_subset args⟩
  | isOfType operand _ => by
    rw [supportCalls]
    exact List.forall_mem_cons.2 ⟨by decide, supportCalls_subset operand⟩
  | single bits | double bits => by
    rw [supportCalls]
    exact numberCalls_subset _
  | construct _ args | list args => by
    rw [supportCalls]
    exact supportCallsList_subset args
  | binary _ left right => by
    rw [supportCalls]
    exact List.forall_mem_append.2 ⟨supportCalls_subset left, supportCalls_subset right⟩
  | negate operand | not operand | complement operand | member operand _ | castTo operand _ | template _ operand => by
    rw [supportCalls]
    exact supportCalls_subset operand
  | invoke object _ args => by
    rw [supportCalls]
    exact List.forall_mem_append.2 ⟨supportCalls_subset object, supportCallsList_subset args⟩
  | adapter _ _ _ _ call result => by
    rw [supportCalls]
    refine List.forall_mem_append.2 ⟨supportCalls_subset call, ?_⟩
    cases result with
    | constant text => exact zeroCalls_subset text
    | discard | value => exact fun _ h => absurd h List.not_mem_nil
  | null | bool _ | int _ | quoted _ | var _ | this | super | caught | path _ | pooled _ => by
    rw [supportCalls]
    exact fun _ h => absurd h List.not_mem_nil

private theorem supportCallsList_subset : (es : List Expr) → ∀ name ∈ supportCallsList es, name ∈ supportClasses
  | [] => fun _ h => absurd h List.not_mem_nil
  | e :: rest => by
    rw [supportCallsList]
    exact List.forall_mem_append.2 ⟨supportCalls_subset e, supportCallsList_subset rest⟩

end

end Expr

/-! ### Statements -/

namespace Stmt

def supportCalls (t : Stmt) : List String := t.exprs.flatMap Expr.supportCalls

/-- The variables that are bound inside. -/
def innerVars : Stmt → List String
  | seq first rest => first.innerVars ++ rest.innerVars
  | tryCatch body handler => body.innerVars ++ catchBinding :: handler.innerVars
  | gotoIf x _ | jumpTable x _ _ | eval x | throw x => x.innerParams
  | assign target value => target.innerParams ++ value.innerParams
  | ret value => value.toList.flatMap Expr.innerParams
  | when condition body | loop condition body | switch condition body => condition.innerParams ++ body.innerVars
  | ite condition thenBranch elseBranch => condition.innerParams ++ (thenBranch.innerVars ++ elseBranch.innerVars)
  | arm _ body | otherwise body => body.innerVars
  | skip | mark _ | guard _ | label _ | goto _ | declare .. | exitLoop | nextLoop => []

end Stmt

/-! ### Functions -/

/-- The class whose statics are accessed or guarded. -/
def ClassUse.holder? : ClassUse → Option String
  | access name | guard name => some name
  | construct _ | adapter _ => none

namespace FunctionBody

def supportCalls : FunctionBody → List String
  | lowered body _ => body.decls.flatMap (fun d => zeroCalls d.value) ++ body.stmts.supportCalls
  | missing .. | errored .. => [reflectClass]
  | given _ => []

/-- The variables that the body declares. -/
def locals : FunctionBody → List String
  | lowered body _ => body.decls.map VarDecl.name
  | given _ | missing .. | errored .. => []

def innerVars : FunctionBody → List String
  | lowered body _ => body.stmts.innerVars
  | given _ | missing .. | errored .. => []

/-- The classes whose statics are accessed or guarded. -/
def holders (b : FunctionBody) : List String := b.classUses.filterMap ClassUse.holder?

end FunctionBody

namespace Function

def vars (f : Function) : List String := f.signature.params.map Prod.fst ++ f.body.locals ++ f.body.innerVars

/-- The identifiers that references of the function start with. -/
def heads (f : Function) : List String := f.body.supportCalls ++ f.body.holders.map headWord

end Function

theorem FunctionBody.supportCalls_subset (b : FunctionBody) : ∀ name ∈ b.supportCalls, name ∈ supportClasses := by
  cases b with
  | lowered body _ =>
    refine List.forall_mem_append.2 ⟨List.forall_mem_flatMap.2 fun d _ => Expr.zeroCalls_subset d.value, ?_⟩
    exact List.forall_mem_flatMap.2 fun e _ => Expr.supportCalls_subset e
  | missing | errored => exact List.forall_mem_singleton.2 (by decide)
  | given => exact fun _ h => absurd h List.not_mem_nil

end HaxeBackend.Target
