import HaxeBackend.Proofs.Target.Execution
import HaxeBackend.Target.Body

/-!
# Closed bodies

A body is closed when everything that its statements name is there: a variable is a parameter or declared once in
front, the slot for caught values is declared if it is used, and every jump has one label to go to.  Text that is
handed through is not looked into.
-/

namespace HaxeBackend.Target

namespace Expr

mutual

/-- The variables of the function around that are named, from left to right; a function inside has its parameters for
itself. -/
def freeVars : Expr → List String
  | var name => [name]
  | num _ args | natives _ args | construct _ args | list args => freeVarsList args
  | binary _ left right => left.freeVars ++ right.freeVars
  | negate operand | not operand | complement operand | member operand _ | isOfType operand _ | castTo operand _
  | template _ operand => operand.freeVars
  | invoke object _ args => object.freeVars ++ freeVarsList args
  | adapter _ params _ _ call _ => call.freeVars.filter fun name => name ∉ params.map Prod.fst
  | null | bool _ | int _ | single _ | double _ | quoted _ | this | super | caught | path _ | pooled _ => []

def freeVarsList : List Expr → List String
  | [] => []
  | e :: rest => e.freeVars ++ freeVarsList rest

end

theorem freeVarsList_eq (es : List Expr) : freeVarsList es = es.flatMap freeVars := by
  induction es with
  | nil => rfl
  | cons e es ih => rw [freeVarsList, ih, List.flatMap_cons]

end Expr

namespace Stmt

def freeVars (t : Stmt) : List String := t.exprs.flatMap Expr.freeVars

/-- The labels, in order. -/
def labels : Stmt → List Nat
  | label id => [id]
  | seq first rest | tryCatch first rest | ite _ first rest => first.labels ++ rest.labels
  | when _ body | loop _ body | switch _ body | arm _ body | otherwise body => body.labels
  | _ => []

/-- The labels that are jumped to, in order. -/
def jumps : Stmt → List Nat
  | goto id | gotoIf _ id => [id]
  | jumpTable _ cases default => cases.map Prod.snd ++ [default]
  | seq first rest | tryCatch first rest | ite _ first rest => first.jumps ++ rest.jumps
  | when _ body | loop _ body | switch _ body | arm _ body | otherwise body => body.jumps
  | _ => []

/-- Whether the handler of a `try` stores what it catches. -/
def catches : Stmt → Bool
  | tryCatch .. => true
  | seq first rest | ite _ first rest => first.catches || rest.catches
  | when _ body | loop _ body | switch _ body | arm _ body | otherwise body => body.catches
  | _ => false

/-- Whether an expression reads the slot for caught values. -/
def ReadsCaught (t : Stmt) : Prop := ∃ e ∈ t.exprs, e.caughts ≠ []

end Stmt

/-- Everything that the body names is there. -/
structure Body.IsClosed (params : List String) (b : Body) : Prop where
  vars : ∀ name ∈ b.stmts.freeVars, name ∈ params ∨ (b.decls.map VarDecl.name).count name = 1
  slot : b.stmts.catches = true ∨ b.stmts.ReadsCaught → (b.decls.map VarDecl.name).count caughtSlot = 1
  jumps : ∀ id ∈ b.stmts.jumps, b.stmts.labels.count id = 1

end HaxeBackend.Target
